import Mathlib.Tactic

/-! # Numbers as byte strings

`leBytes n v` and `beBytes n v` are the `n` low bytes of `v`, least and most significant first;
`ofLe` and `ofBe` read such a string back. Reading what was written gives the value modulo
`256 ^ n`, and writing what was read gives the string, so each pair is a bijection between the
strings of length `n` and the numbers below `256 ^ n`. -/

namespace RustRaknet.Lib.Endian

/-- The `n` low bytes of `v`, least significant first. -/
def leBytes : ℕ → ℕ → List UInt8
  | 0, _ => []
  | n + 1, v => UInt8.ofNat v :: leBytes n (v / 256)

/-- The `n` low bytes of `v`, most significant first. -/
def beBytes (n v : ℕ) : List UInt8 := (leBytes n v).reverse

/-- The number a little-endian string stands for. -/
def ofLe : List UInt8 → ℕ
  | [] => 0
  | b :: l => b.toNat + 256 * ofLe l

/-- The number a big-endian string stands for. -/
def ofBe (l : List UInt8) : ℕ := ofLe l.reverse

@[simp] theorem length_leBytes : ∀ n v : ℕ, (leBytes n v).length = n
  | 0, _ => rfl
  | n + 1, v => by simp [leBytes, length_leBytes n]

@[simp] theorem length_beBytes (n v : ℕ) : (beBytes n v).length = n := by simp [beBytes]

theorem ofLe_lt : ∀ l : List UInt8, ofLe l < 256 ^ l.length
  | [] => by simp [ofLe]
  | b :: l => by
    have hb := UInt8.toNat_lt b
    have hl := ofLe_lt l
    simp only [ofLe, List.length_cons, pow_succ]
    omega

theorem ofBe_lt (l : List UInt8) : ofBe l < 256 ^ l.length := by
  have := ofLe_lt l.reverse
  rwa [List.length_reverse] at this

/-- **Reading back** a value of at most `n` bytes. -/
theorem ofLe_leBytes : ∀ {n v : ℕ}, v < 256 ^ n → ofLe (leBytes n v) = v
  | 0, v, h => by simp at h; simp [leBytes, ofLe, h]
  | n + 1, v, h => by
    have hv : v / 256 < 256 ^ n := by
      rw [pow_succ] at h
      exact Nat.div_lt_of_lt_mul (by rwa [Nat.mul_comm] at h)
    simp only [leBytes, ofLe, ofLe_leBytes hv, UInt8.toNat_ofNat']
    omega

theorem ofBe_beBytes {n v : ℕ} (h : v < 256 ^ n) : ofBe (beBytes n v) = v := by
  rw [ofBe, beBytes, List.reverse_reverse, ofLe_leBytes h]

/-- **Writing back** the string that was read. -/
theorem leBytes_ofLe : ∀ l : List UInt8, leBytes l.length (ofLe l) = l
  | [] => rfl
  | b :: l => by
    have hb := UInt8.toNat_lt b
    have hdiv : (b.toNat + 256 * ofLe l) / 256 = ofLe l := by omega
    have hmod : UInt8.ofNat (b.toNat + 256 * ofLe l) = b := by
      apply UInt8.toNat_inj.mp
      rw [UInt8.toNat_ofNat']
      omega
    simp only [List.length_cons, leBytes, ofLe, hdiv, hmod, leBytes_ofLe l]

theorem beBytes_ofBe (l : List UInt8) : beBytes l.length (ofBe l) = l := by
  have := leBytes_ofLe l.reverse
  rw [List.length_reverse] at this
  rw [beBytes, ofBe, this, List.reverse_reverse]

end RustRaknet.Lib.Endian
