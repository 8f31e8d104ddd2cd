import ZanoP2pool.KeccakRefinement
import ZanoP2pool.P2pWireFormat
import ZanoP2pool.ZanoAddressEncoding

namespace ZanoP2pool

open Foundation

/-!
# The ids of the public sidechains

The wire refuses a zero sidechain id, and a handshake that names no sidechain is
sent under the id of its network.  That id is a hash of fixed parameters, here
evaluated through the specification of the hash.
-/

/-- The hash of the program as a 32-byte array; it always has a value. -/
def keccakHash (data : List UInt8) : Hash256 :=
  BitVec.ofNat 256
    (ofBigEndian (((cnFastHash data).map Vector.toList).getD []))

/-- The ids that the protocol documents. -/
def documentedSidechainId : SidechainParentNetwork → SidechainId
  | .testnet =>
      0x7839f2d83f198fac5e19db29f9725503a8659bc9ac777c194713aeec5a4b740c
  | .mainnet =>
      0x8edc01948b039c16cb7e51f47ef5dfe89a0cee085e1459f2e5b2b13ce7206f4b

theorem documentedSidechainId_ne_zero (network : SidechainParentNetwork) :
    documentedSidechainId network ≠ 0 := by
  cases network <;> decide

theorem kRoundConstants_toList :
    kRoundConstants.toList = (List.range 24).map Keccak.roundConstant := by
  refine List.ext_getElem? fun index => ?_
  by_cases within : index < 24
  · rw [Vector.getElem?_toList, kRoundConstants_getElem? ⟨index, within⟩,
      List.getElem?_map, List.getElem?_range within, Option.map_some]
  · rw [List.getElem?_eq_none (by simpa using within),
      List.getElem?_eq_none (by simpa using within)]

/-- The encoded parameters and what the sponge makes of them. -/
theorem canonicalSidechainParameters_encoded
    (network : SidechainParentNetwork) :
    ∃ bytes,
      serializeSidechainParameters (canonicalSidechainParameters network) =
          .ok bytes ∧
        Keccak.evaluatedSponge kRoundConstants.toList 136 bytes 32 =
          hashBytes (documentedSidechainId network) := by
  cases network with
  | testnet => exact ⟨_, rfl, by decide +kernel⟩
  | mainnet => exact ⟨_, rfl, by decide +kernel⟩

variable {backend : Backend} (keccak : backend.cnFastHash = keccakHash)

include keccak

/-- The canonical parameters hash to the documented ids. -/
theorem sidechainId_canonical
    (network : SidechainParentNetwork) :
    sidechainId backend (canonicalSidechainParameters network) =
      .ok (documentedSidechainId network) := by
  obtain ⟨bytes, encoded, squeezed⟩ :=
    canonicalSidechainParameters_encoded network
  obtain ⟨hash, hashed, same⟩ := cnFastHash_eq bytes
  have value : backend.cnFastHash bytes = documentedSidechainId network := by
    rw [keccak, keccakHash, hashed, Option.map_some, Option.getD_some, same,
      ← Keccak.evaluatedSponge_eq _ kRoundConstants_toList, squeezed, ofBigEndian_hashBytes]
  unfold sidechainId
  rw [encoded, ← value]
  rfl

/-- No handshake of the program stands for the zero sidechain. -/
theorem resolvedP2pSidechainId_ne_zero
    (handshake : P2pHandshake) :
    ∃ sidechainId,
      resolvedP2pSidechainId backend handshake = .ok sidechainId ∧
        sidechainId ≠ 0 := by
  by_cases named : handshake.sidechainId = 0
  · have resolved (network : P2pNetwork) :
        ∃ parent,
          canonicalP2pSidechainId backend network =
            .ok (documentedSidechainId parent) := by
      cases network with
      | testnet => exact ⟨.testnet, sidechainId_canonical keccak .testnet⟩
      | mainnet => exact ⟨.mainnet, sidechainId_canonical keccak .mainnet⟩
    obtain ⟨parent, canonical⟩ := resolved handshake.network
    have zero : isZeroSidechainId handshake.sidechainId = true :=
      isZeroSidechainId_iff.mpr named
    refine ⟨documentedSidechainId parent, ?_,
      documentedSidechainId_ne_zero parent⟩
    unfold resolvedP2pSidechainId
    rw [zero]
    exact canonical
  · exact ⟨handshake.sidechainId, resolvedP2pSidechainId_of_ne named, named⟩

/-- Every handshake the program makes is read back, whatever it names. -/
theorem parseP2pHandshakeEnvelope_of_made
    {handshake : P2pHandshake}
    {envelope : P2pEnvelope}
    (made : makeP2pHandshakeEnvelope backend handshake = .ok envelope) :
    ∃ sidechainId,
      resolvedP2pSidechainId backend handshake = .ok sidechainId ∧
        parseP2pHandshakeEnvelope envelope =
          .ok { handshake with sidechainId } := by
  obtain ⟨valid, sidechainId, resolved, rfl⟩ :=
    makeP2pHandshakeEnvelope_eq_ok.mp made
  obtain ⟨_, again, nonzero⟩ := resolvedP2pSidechainId_ne_zero keccak handshake
  obtain rfl := Except.ok.inj (resolved.symm.trans again)
  exact ⟨sidechainId, resolved,
    parseP2pHandshakeEnvelope_eq_ok.mpr ⟨nonzero, valid, rfl⟩⟩

end ZanoP2pool
