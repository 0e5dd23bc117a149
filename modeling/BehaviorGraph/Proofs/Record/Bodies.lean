import BehaviorGraph.Proofs.Wire.Decoding
import BehaviorGraph.Record

/-!
# The bodies of a record

Between its two lengths a record holds edges of twelve bytes and words of eight. Any such bytes are
edges and words, and each edge and each word has one spelling.

* `NodeId.spelling`, `NodeId.flatten_fields`: the twelve bytes of an edge, as they are written;
* `BitSet.wordSpelling`: the eight bytes of a word;
* **`NodeId.read_spells`**, **`BitSet.readWord_spells`**: both are read off their spellings.
-/

namespace BehaviorGraph

theorem bigEndian_toUInt64 {bytes : List UInt8} (size : bytes.length = 8) :
    bigEndian 8 (UInt64.ofNat (ofBigEndian bytes)).toNat = bytes := by
  have bound := ofBigEndian_lt bytes
  have same := bigEndian_ofBigEndian bytes
  rw [size] at bound same
  rw [UInt64.toNat_ofNat', Nat.mod_eq_of_lt (by omega), same]

theorem bigEndian_toUInt32 {bytes : List UInt8} (size : bytes.length = 4) :
    bigEndian 4 (UInt32.ofNat (ofBigEndian bytes)).toNat = bytes := by
  have bound := ofBigEndian_lt bytes
  have same := bigEndian_ofBigEndian bytes
  rw [size] at bound same
  rw [UInt32.toNat_ofNat', Nat.mod_eq_of_lt (by omega), same]

/-! ## Edges -/

theorem Fingerprint.toNat_high (p : Fingerprint) :
    p.high.toUInt32.toNat = p.bits.toNat / 256 ^ 4 := by
  have bound := p.bits.toNat_lt
  simp only [high, UInt32.toUInt32_toInt32, UInt64.toNat_toUInt32, UInt64.toNat_shiftRight,
    UInt64.reduceToNat, Nat.reduceMod, Nat.shiftRight_eq_div_pow]
  omega

theorem Fingerprint.toNat_low (p : Fingerprint) :
    p.low.toUInt32.toNat = p.bits.toNat % 256 ^ 4 := by
  simp only [low, UInt32.toUInt32_toInt32, UInt64.toNat_toUInt32]
  rfl

namespace NodeId

/-- The bytes of an edge to the given target: its fingerprint in eight bytes, its tableau index in
four. -/
def spelling (v : NodeId) : List UInt8 :=
  bigEndian 8 v.state.bits.toNat ++ bigEndian 4 v.tableau.toUInt32.toNat

theorem flatten_fields (v : NodeId) : v.fields.flatten = v.spelling := by
  simp only [fields, spelling, List.map_cons, List.map_nil, List.flatten_cons, List.flatten_nil,
    List.append_nil]
  rw [Fingerprint.toNat_high, Fingerprint.toNat_low, bigEndian_mod, bigEndian_add 4 4,
    List.append_assoc]

/-- **Edges are read off their spellings.** -/
theorem read_spells : read.Spells 12 spelling where
  length_spell v := by simp [spelling]
  exists_spell bytes size := by
    have front : (bytes.take 8).length = 8 := by rw [List.length_take]; omega
    have back : (bytes.drop 8).length = 4 := by rw [List.length_drop]; omega
    refine ⟨⟨⟨UInt64.ofNat (ofBigEndian (bytes.take 8))⟩,
      (UInt32.ofNat (ofBigEndian (bytes.drop 8))).toInt32⟩, ?_⟩
    rw [spelling, UInt32.toUInt32_toInt32, bigEndian_toUInt64 front, bigEndian_toUInt32 back,
      List.take_append_drop]
  ok {s v more} moves front := by
    rw [← flatten_fields] at front
    simp only [fields, List.map_cons, List.map_nil, List.flatten_cons, List.flatten_nil,
      List.append_nil, List.append_assoc] at front
    have high := Decoder.number_bigEndian moves v.state.high.toUInt32.toNat_lt front
    have low := Decoder.number_bigEndian (s := ⟨bigEndian 4 v.state.low.toUInt32.toNat ++
      (bigEndian 4 v.tableau.toUInt32.toNat ++ more), s.chunk, s.ending⟩) moves
      v.state.low.toUInt32.toNat_lt rfl
    have tableau := Decoder.number_bigEndian (s := ⟨bigEndian 4 v.tableau.toUInt32.toNat ++ more,
      s.chunk, s.ending⟩) moves v.tableau.toUInt32.toNat_lt rfl
    unfold read
    rw [Decoder.bind_ok high, Decoder.bind_ok low, Decoder.bind_ok tableau, UInt32.ofNat_toNat,
      UInt32.ofNat_toNat, UInt32.ofNat_toNat, Int32.toInt32_toUInt32, Int32.toInt32_toUInt32,
      Int32.toInt32_toUInt32, Fingerprint.ofHalves_high_low]
    rfl
  error {s} moves short := by
    refine Decoder.number_bind_error 8 (fun high s moves short => ?_) moves short
    refine Decoder.number_bind_error 4 (fun low s moves short => ?_) moves short
    exact Decoder.bind_error (Decoder.number_error moves short)

end NodeId

/-! ## Words -/

namespace BitSet

/-- The bytes of a word. -/
def wordSpelling (word : UInt64) : List UInt8 := bigEndian 8 word.toNat

/-- **Words are read off their spellings.** -/
theorem readWord_spells : readWord.Spells 8 wordSpelling where
  length_spell word := length_bigEndian 8 _
  exists_spell bytes size := ⟨UInt64.ofNat (ofBigEndian bytes), bigEndian_toUInt64 size⟩
  ok {s word more} moves front := by
    have number := Decoder.number_bigEndian moves word.toNat_lt front
    unfold readWord
    rw [Decoder.bind_ok number, UInt64.ofNat_toNat]
    rfl
  error {s} moves short := Decoder.bind_error (Decoder.number_error moves short)

end BitSet

end BehaviorGraph
