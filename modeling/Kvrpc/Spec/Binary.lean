import Kvrpc.Spec.Meta
import Mathlib.Logic.Equiv.List

/-!
# A codec with the two laws

`Codecs` asks two things of the JSON codec: decoding inverts encoding, and no encoding
starts with a NUL byte. Every statement about the meta store is for any codec with them.
`Codecs.binary` shows such codecs exist: a descriptor's `Encodable` number in base-256
digits after the tag byte `1`. Statements with hypotheses are instantiated at it.
-/

namespace Kvrpc

instance encodableChar : Encodable Char :=
  Encodable.ofLeftInjection Char.toNat (fun n => some (Char.ofNat n)) fun c => by simp

instance encodableString : Encodable String :=
  Encodable.ofLeftInjection String.data (fun l => some ⟨l⟩) fun _ => rfl

instance : Encodable SchemaState :=
  Encodable.ofLeftInjection SchemaState.toCtorIdx (fun n => some (SchemaState.ofNat n))
    fun s => by cases s <;> rfl

instance : Encodable IndexInfo :=
  Encodable.ofLeftInjection (fun i => (i.id, i.name, i.state))
    (fun p => some ⟨p.1, p.2.1, p.2.2⟩) fun _ => rfl

instance : Encodable CollectionInfo :=
  Encodable.ofLeftInjection (fun c => (c.id, c.name, c.indices, c.state))
    (fun p => some ⟨p.1, p.2.1, p.2.2.1, p.2.2.2⟩) fun _ => rfl

instance : Encodable DBInfo :=
  Encodable.ofLeftInjection (fun d => (d.id, d.name, d.collections, d.state))
    (fun p => some ⟨p.1, p.2.1, p.2.2.1, p.2.2.2⟩) fun _ => rfl

/-- Base-256 digits read back. -/
theorem ofDigits_map_toNat (n : ℕ) :
    Nat.ofDigits 256 ((Nat.digits 256 n).map (UInt8.toNat ∘ UInt8.ofNat)) = n := by
  have h : ∀ d ∈ Nat.digits 256 n, (UInt8.toNat ∘ UInt8.ofNat) d = d :=
    fun d hd => UInt8.toNat_ofNat_of_lt (Nat.digits_lt_base (by decide) hd)
  rw [List.map_congr_left h, List.map_id', Nat.ofDigits_digits]

/-- A value's `Encodable` number, in base-256 digits after the tag byte `1`. -/
def Codec.ofEncodable (α : Type) [Encodable α] : Codec α where
  marshal a := 1 :: (Nat.digits 256 (Encodable.encode a)).map UInt8.ofNat
  unmarshal
    | [] => none
    | t :: bs => if t = 1 then Encodable.decode (Nat.ofDigits 256 (bs.map UInt8.toNat)) else none
  unmarshal_marshal a := by
    simp only [if_true, List.map_map, ofDigits_map_toNat, Encodable.encodek]

/-- The same codec as JSON: its texts start with the byte `1`. -/
def Json.ofEncodable (α : Type) [Encodable α] : Json α :=
  { Codec.ofEncodable α with unmarshal_nul := fun _ => rfl }

/-- The binary codecs of the descriptors. -/
def Codecs.binary : Codecs := ⟨Json.ofEncodable DBInfo, Json.ofEncodable CollectionInfo⟩

end Kvrpc
