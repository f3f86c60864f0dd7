import Mathlib.Data.List.Basic
import Mathlib.Algebra.Group.Nat.Basic
import Mathlib.Algebra.Group.Int
import Mathlib.Data.Nat.Digits

/-!
# Byte strings, counters, JSON and formatted keys

The meta store keeps byte strings. Counters are 8-byte big-endian `int64`s
(`putInt64`, `getInt64`), as the structured encoding writes them; schema descriptors
are JSON, documents BSON. Marshalling is an external collaborator: `Codec` states the
fact this code relies on, that decoding inverts encoding, and `Json` adds the one the
meta store relies on.

The meta keys are formatted with `fmt.Sprintf("%s:%d", prefix, id)` (`fmtKey`). A
formatted key determines its id (`fmtKey_inj`), including negative ids.
-/

namespace Kvrpc

/-- A byte string. -/
abbrev Bytes := List UInt8

/-- Modelled from the spec: a marshaller for one Go type, as this code uses it: `Unmarshal`
inverts `Marshal`. -/
structure Codec (α : Type) where
  marshal : α → Bytes
  unmarshal : Bytes → Option α
  unmarshal_marshal : ∀ a, unmarshal (marshal a) = some a

attribute [simp] Codec.unmarshal_marshal

/-- Modelled from the spec: `encoding/json` for one Go type: a codec, and no JSON text
starts with a NUL byte. -/
structure Json (α : Type) extends Codec α where
  unmarshal_nul : ∀ b, unmarshal (0 :: b) = none

/-- Modelled from the spec: Go's `int64` arithmetic: two's complement modulo `2 ^ 64`. -/
def toInt64 (v : ℤ) : ℤ := Int.bmod v (2 ^ 64)

/-- Modelled from the spec: `math.MaxInt64`. -/
def maxInt64 : ℤ := 2 ^ 63 - 1

/-- Modelled from the spec: Go's `int32` arithmetic: two's complement modulo `2 ^ 32`. -/
def toInt32 (v : ℤ) : ℤ := Int.bmod v (2 ^ 32)

/-- Modelled from the spec: `math.MaxInt32`. -/
def maxInt32 : ℤ := 2 ^ 31 - 1

/-- `k` bytes of `u`, big-endian. -/
def beBytes : ℕ → ℕ → Bytes
  | 0, _ => []
  | k + 1, u => beBytes k (u / 256) ++ [UInt8.ofNat (u % 256)]

/-- The number big-endian bytes stand for. -/
def beValue (b : Bytes) : ℕ := b.foldl (fun acc x => 256 * acc + x.toNat) 0

/-- Modelled from the spec: `binary.BigEndian.PutUint64(buf, uint64(v))`. -/
def putInt64 (v : ℤ) : Bytes := beBytes 8 (v % 2 ^ 64).toNat

/-- Modelled from the spec: `int64(binary.BigEndian.Uint64(b))`, which panics (`none`) on
fewer than 8 bytes. -/
def getInt64 (b : Bytes) : Option ℤ :=
  if b.length < 8 then none else some (toInt64 (beValue (b.take 8)))

theorem beBytes_length (k u : ℕ) : (beBytes k u).length = k := by
  induction k generalizing u with
  | zero => rfl
  | succ k ih => simp [beBytes, ih]

theorem beValue_beBytes (k u : ℕ) : beValue (beBytes k u) = u % 256 ^ k := by
  induction k generalizing u with
  | zero => simp [beBytes, beValue, Nat.mod_one]
  | succ k ih =>
    have h := ih (u / 256)
    unfold beValue at h
    simp only [beBytes, beValue, List.foldl_append, List.foldl_cons, List.foldl_nil, h,
      UInt8.toNat_ofNat_of_lt (Nat.mod_lt u (by decide : 0 < 256) |>.trans_le (by decide)),
      Nat.pow_succ', Nat.mod_mul]
    omega

/-- A counter reads back as the `int64` it was written as. -/
theorem getInt64_putInt64 (v : ℤ) : getInt64 (putInt64 v) = some (toInt64 v) := by
  have hnn : 0 ≤ v % 2 ^ 64 := Int.emod_nonneg _ (by decide)
  have hlt : (v % 2 ^ 64).toNat < 2 ^ 64 := by
    have := Int.emod_lt_of_pos v (by decide : (0 : ℤ) < 2 ^ 64); omega
  unfold getInt64 putInt64
  rw [if_neg (by rw [beBytes_length]; decide), List.take_of_length_le (by rw [beBytes_length]),
    beValue_beBytes, Nat.mod_eq_of_lt (by simpa using hlt)]
  simp only [toInt64, Int.toNat_of_nonneg hnn]
  exact congrArg some (Int.emod_bmod_congr v (2 ^ 64))

/-! ### Formatted keys -/

/-- `fmt.Sprintf("%s:%d", prefix, id)`. -/
def fmtKey (pre : String) (id : ℤ) : String := pre ++ ":" ++ toString id

/-- Decimal digits read back. -/
def ofDigitChars (cs : List Char) : ℕ := cs.foldl (fun acc c => 10 * acc + (c.toNat - 48)) 0

/-- A formatted `int64` read back. -/
def ofIntChars : List Char → ℤ
  | '-' :: cs => -(ofDigitChars cs : ℤ)
  | cs => ofDigitChars cs

theorem toDigitsCore_append (f n : ℕ) (ds : List Char) :
    Nat.toDigitsCore 10 f n ds = Nat.toDigitsCore 10 f n [] ++ ds := by
  induction f generalizing n ds with
  | zero => rfl
  | succ f ih =>
    simp only [Nat.toDigitsCore]
    split_ifs
    · rfl
    · rw [ih _ (_ :: ds), ih _ [_]]; simp

theorem toDigitsCore_fuel {f f' n : ℕ} (hf : n < f) (hf' : n < f') (ds : List Char) :
    Nat.toDigitsCore 10 f n ds = Nat.toDigitsCore 10 f' n ds := by
  induction f generalizing f' n ds with
  | zero => omega
  | succ f ih =>
    obtain ⟨f', rfl⟩ : ∃ g, f' = g + 1 := ⟨f' - 1, by omega⟩
    simp only [Nat.toDigitsCore]
    split_ifs
    · rfl
    · exact ih (by omega) (by omega) _

/-- The decimal digits of `n`: those of `n / 10`, then the last one. -/
theorem toDigits_eq (n : ℕ) : Nat.toDigits 10 n =
    (if n / 10 = 0 then [] else Nat.toDigits 10 (n / 10)) ++ [Nat.digitChar (n % 10)] := by
  conv_lhs => unfold Nat.toDigits; rw [Nat.toDigitsCore]
  split_ifs with h
  · rfl
  · rw [toDigitsCore_append, toDigitsCore_fuel (by omega : n / 10 < n)
      (by omega : n / 10 < n / 10 + 1)]
    rfl

theorem digitChar_val : ∀ k, k < 10 → (Nat.digitChar k).toNat - 48 = k := by decide

theorem digitChar_ne_minus : ∀ k, k < 10 → Nat.digitChar k ≠ '-' := by decide

theorem ofDigitChars_toDigits (n : ℕ) : ofDigitChars (Nat.toDigits 10 n) = n := by
  induction n using Nat.strong_induction_on with
  | _ n ih =>
    rw [toDigits_eq]
    unfold ofDigitChars
    rw [List.foldl_append]
    have hd := digitChar_val _ (Nat.mod_lt n (by decide))
    split_ifs with h
    · simp only [List.foldl_nil, List.foldl_cons, Nat.mul_zero, Nat.zero_add, hd]
      omega
    · have := ih (n / 10) (by omega)
      unfold ofDigitChars at this
      simp only [List.foldl_cons, List.foldl_nil, this, hd]
      omega

theorem minus_not_mem_toDigits (n : ℕ) : '-' ∉ Nat.toDigits 10 n := by
  induction n using Nat.strong_induction_on with
  | _ n ih =>
    rw [toDigits_eq, List.mem_append, List.mem_singleton]
    rintro (h | h)
    · split_ifs at h with h0
      · cases h
      · exact ih (n / 10) (by omega) h
    · exact digitChar_ne_minus _ (Nat.mod_lt n (by decide)) h.symm

/-- `%d` reads back. -/
theorem ofIntChars_toString (i : ℤ) : ofIntChars (toString i).data = i := by
  cases i with
  | ofNat n =>
    show ofIntChars (Nat.toDigits 10 n) = n
    rw [ofIntChars.eq_2 _ fun cs h => minus_not_mem_toDigits n (by rw [h]; exact List.mem_cons_self _ _),
      ofDigitChars_toDigits]
  | negSucc n =>
    show ofIntChars ('-' :: Nat.toDigits 10 (n + 1)) = Int.negSucc n
    simp only [ofIntChars, ofDigitChars_toDigits]
    rfl

theorem fmtKey_data (pre : String) (id : ℤ) :
    (fmtKey pre id).data = pre.data ++ ':' :: (toString id).data := by
  simp [fmtKey, String.append]

/-- **A formatted key determines its id.** -/
theorem fmtKey_inj {pre : String} {a b : ℤ} (h : fmtKey pre a = fmtKey pre b) : a = b := by
  have hd := congrArg String.data h
  rw [fmtKey_data, fmtKey_data, List.append_cancel_left_eq, List.cons.injEq] at hd
  rw [← ofIntChars_toString a, ← ofIntChars_toString b, hd.2]

end Kvrpc
