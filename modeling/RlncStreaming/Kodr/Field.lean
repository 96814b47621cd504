import Mathlib.Algebra.CharP.Two
import Mathlib.Tactic.Ring

/-!
The byte field of the coder.

`galoisfield.DefaultGF256` is third-party code, so the field is a parameter of
the development: `GF256` carries the three operations the coder calls together
with the laws that make them the operations of a field of characteristic two
whose zero and one are the bytes `0` and `1`. `GF256.Sym` is the set of bytes
with that arithmetic as a Mathlib field.

`poly84320` shows that the laws have a model: the bytes as polynomials over
`GF(2)` modulo `x^8 + x^4 + x^3 + x^2 + 1`.
-/

namespace RlncStreaming.Kodr

/-- `*galoisfield.GF` at 256 elements: the operations `Add`, `Mul` and `Div` on
bytes and the field laws they satisfy. `div` by zero is left open. -/
structure GF256 where
  add : UInt8 → UInt8 → UInt8
  mul : UInt8 → UInt8 → UInt8
  div : UInt8 → UInt8 → UInt8
  addAssoc : ∀ a b c, add (add a b) c = add a (add b c)
  addComm : ∀ a b, add a b = add b a
  zeroAdd : ∀ a, add 0 a = a
  addSelf : ∀ a, add a a = 0
  mulAssoc : ∀ a b c, mul (mul a b) c = mul a (mul b c)
  mulComm : ∀ a b, mul a b = mul b a
  oneMul : ∀ a, mul 1 a = a
  mulAdd : ∀ a b c, mul a (add b c) = add (mul a b) (mul a c)
  divMul : ∀ a b, b ≠ 0 → mul (div a b) b = a

/-- A byte read as an element of the field. -/
@[ext] structure GF256.Sym (gf : GF256) where
  byte : UInt8
deriving DecidableEq

namespace GF256

variable (gf : GF256)

/-- The field element a byte stands for. -/
def sym (a : UInt8) : gf.Sym := ⟨a⟩

/-- Multiplying by zero gives zero: `a * 0 = a * (0 + 0)`, and every element is
its own opposite. -/
theorem mulZero (a : UInt8) : gf.mul a 0 = 0 := by
  have h := gf.mulAdd a 0 0
  rw [gf.zeroAdd] at h
  rw [h, gf.addSelf]

instance : Zero gf.Sym := ⟨gf.sym 0⟩
instance : One gf.Sym := ⟨gf.sym 1⟩
instance : Add gf.Sym := ⟨fun a b => gf.sym (gf.add a.byte b.byte)⟩
instance : Mul gf.Sym := ⟨fun a b => gf.sym (gf.mul a.byte b.byte)⟩
instance : Neg gf.Sym := ⟨fun a => a⟩
instance : Inv gf.Sym := ⟨fun a => if a = 0 then 0 else gf.sym (gf.div 1 a.byte)⟩

/-- The bytes form a commutative ring in which negation is the identity. -/
instance : CommRing gf.Sym where
  add_assoc a b c := congrArg gf.sym (gf.addAssoc a.byte b.byte c.byte)
  zero_add a := congrArg gf.sym (gf.zeroAdd a.byte)
  add_zero a := congrArg gf.sym ((gf.addComm a.byte 0).trans (gf.zeroAdd a.byte))
  add_comm a b := congrArg gf.sym (gf.addComm a.byte b.byte)
  neg_add_cancel a := congrArg gf.sym (gf.addSelf a.byte)
  mul_assoc a b c := congrArg gf.sym (gf.mulAssoc a.byte b.byte c.byte)
  one_mul a := congrArg gf.sym (gf.oneMul a.byte)
  mul_one a := congrArg gf.sym ((gf.mulComm a.byte 1).trans (gf.oneMul a.byte))
  zero_mul a := congrArg gf.sym ((gf.mulComm 0 a.byte).trans (gf.mulZero a.byte))
  mul_zero a := congrArg gf.sym (gf.mulZero a.byte)
  left_distrib a b c := congrArg gf.sym (gf.mulAdd a.byte b.byte c.byte)
  right_distrib a b c := by
    have h := gf.mulAdd c.byte a.byte b.byte
    rw [gf.mulComm c.byte a.byte, gf.mulComm c.byte b.byte, gf.mulComm c.byte] at h
    exact congrArg gf.sym h
  mul_comm a b := congrArg gf.sym (gf.mulComm a.byte b.byte)
  nsmul := nsmulRec
  zsmul := zsmulRec
  npow := npowRec

variable {gf}

@[simp] theorem sym_inj {a b : UInt8} : gf.sym a = gf.sym b ↔ a = b :=
  ⟨fun h => congrArg Sym.byte h, congrArg gf.sym⟩

@[simp] theorem sym_zero : gf.sym 0 = 0 := rfl

@[simp] theorem sym_one : gf.sym 1 = 1 := rfl

@[simp] theorem sym_add (a b : UInt8) : gf.sym (gf.add a b) = gf.sym a + gf.sym b := rfl

@[simp] theorem sym_mul (a b : UInt8) : gf.sym (gf.mul a b) = gf.sym a * gf.sym b := rfl

@[simp] theorem sym_eq_zero {a : UInt8} : gf.sym a = 0 ↔ a = 0 := sym_inj (b := 0)

variable (gf)

instance : Nontrivial gf.Sym := ⟨gf.sym 0, gf.sym 1, fun h => absurd (sym_inj.mp h) (by decide)⟩

theorem sym_mul_inv_cancel (a : gf.Sym) (h : a ≠ 0) : a * a⁻¹ = 1 := by
  have hinv : a⁻¹ = gf.sym (gf.div 1 a.byte) := if_neg h
  have hbyte : a.byte ≠ 0 := fun h0 => h (Sym.ext h0)
  rw [hinv, mul_comm]
  exact congrArg gf.sym (gf.divMul 1 a.byte hbyte)

instance : Field gf.Sym where
  mul_inv_cancel := gf.sym_mul_inv_cancel
  inv_zero := if_pos rfl
  nnqsmul := _
  nnqsmul_def := fun _ _ => rfl
  qsmul := _
  qsmul_def := fun _ _ => rfl

variable {gf}

theorem sym_add_self (a : gf.Sym) : a + a = 0 := congrArg gf.sym (gf.addSelf a.byte)

/-- `Div` by a nonzero byte is division in the field. -/
theorem sym_div (a b : UInt8) (hb : b ≠ 0) : gf.sym (gf.div a b) = gf.sym a / gf.sym b := by
  rw [eq_div_iff (by simpa using hb), ← sym_mul, gf.divMul a b hb]

end GF256

/-! ### The polynomial model -/

namespace Poly84320

/-- The powers of `x` below `x^8`, highest first. -/
def basis : List UInt8 := [128, 64, 32, 16, 8, 4, 2, 1]

/-- `a` if the bit `m` of `b` is set, and `0` otherwise. -/
def pick (a b m : UInt8) : UInt8 := if b &&& m = 0 then 0 else a

/-- Multiplication by `x`: a shift, and a reduction by `0x11d` when the top bit
falls out. -/
def xtime (a : UInt8) : UInt8 := (a <<< 1) ^^^ pick 0x1d a 128

/-- Multiplication by Horner's rule over the bits of `b`. -/
def mul (a b : UInt8) : UInt8 :=
  basis.foldl (fun acc m => xtime acc ^^^ pick a b m) 0

/-- The inverses of the bytes in order; the entry of `0` is unused. -/
def inverses : List UInt8 :=
  [
    0, 1, 142, 244, 71, 167, 122, 186, 173, 157, 221, 152, 61, 170, 93, 150,
    216, 114, 192, 88, 224, 62, 76, 102, 144, 222, 85, 128, 160, 131, 75, 42,
    108, 237, 57, 81, 96, 86, 44, 138, 112, 208, 31, 74, 38, 139, 51, 110,
    72, 137, 111, 46, 164, 195, 64, 94, 80, 34, 207, 169, 171, 12, 21, 225,
    54, 95, 248, 213, 146, 78, 166, 4, 48, 136, 43, 30, 22, 103, 69, 147,
    56, 35, 104, 140, 129, 26, 37, 97, 19, 193, 203, 99, 151, 14, 55, 65,
    36, 87, 202, 91, 185, 196, 23, 77, 82, 141, 239, 179, 32, 236, 47, 50,
    40, 209, 17, 217, 233, 251, 218, 121, 219, 119, 6, 187, 132, 205, 254, 252,
    27, 84, 161, 29, 124, 204, 228, 176, 73, 49, 39, 45, 83, 105, 2, 245,
    24, 223, 68, 79, 155, 188, 15, 92, 11, 220, 189, 148, 172, 9, 199, 162,
    28, 130, 159, 198, 52, 194, 70, 5, 206, 59, 13, 60, 156, 8, 190, 183,
    135, 229, 238, 107, 235, 242, 191, 175, 197, 100, 7, 123, 149, 154, 174, 182,
    18, 89, 165, 53, 101, 184, 163, 158, 210, 247, 98, 90, 133, 125, 168, 58,
    41, 113, 200, 246, 249, 67, 215, 214, 16, 115, 118, 120, 153, 10, 25, 145,
    20, 63, 230, 240, 134, 177, 226, 241, 250, 116, 243, 180, 109, 33, 178, 106,
    227, 231, 181, 234, 3, 143, 211, 201, 66, 212, 232, 117, 127, 255, 126, 253]

def inv (a : UInt8) : UInt8 := inverses.getD a.toNat 0

/-- A statement about all bytes is a statement about 256 numbers. -/
theorem forall_byte {P : UInt8 → Prop} (h : ∀ i : Fin 256, P (UInt8.ofNat i)) : ∀ a, P a := by
  intro a
  have hlt : a.toNat < 256 := a.toNat_lt
  simpa using h ⟨a.toNat, hlt⟩

theorem byte_eq_picks (a : UInt8) : a = basis.foldl (fun acc m => acc ^^^ pick m a m) 0 := by
  revert a
  apply forall_byte
  decide +kernel

theorem and_basis {m : UInt8} (hm : m ∈ basis) (a : UInt8) : a &&& m = 0 ∨ a &&& m = m := by
  revert a
  apply forall_byte
  revert m
  decide +kernel

theorem xor_and (a b m : UInt8) : (a ^^^ b) &&& m = (a &&& m) ^^^ (b &&& m) := by
  apply UInt8.toBitVec_inj.mp
  ext i
  simp [Bool.and_xor_distrib_right]

/-- The four-term exchange law of `xor`. -/
theorem xor_xor_xor_comm (a b c d : UInt8) : (a ^^^ b) ^^^ (c ^^^ d) = (a ^^^ c) ^^^ (b ^^^ d) := by
  rw [UInt8.xor_assoc, UInt8.xor_assoc, ← UInt8.xor_assoc b, UInt8.xor_comm b c, UInt8.xor_assoc c]

theorem pick_xor_left (a a' b m : UInt8) : pick (a ^^^ a') b m = pick a b m ^^^ pick a' b m := by
  unfold pick
  split <;> simp

theorem pick_xor_right {m : UInt8} (hm : m ∈ basis) (a b b' : UInt8) :
    pick a (b ^^^ b') m = pick a b m ^^^ pick a b' m := by
  have hzero : 0 ∉ basis := by decide
  have hm0 : m ≠ 0 := fun h => hzero (h ▸ hm)
  unfold pick
  rw [xor_and]
  rcases and_basis hm b with h | h <;> rcases and_basis hm b' with h' | h' <;> simp [h, h', hm0]

theorem xtime_xor (a b : UInt8) : xtime (a ^^^ b) = xtime a ^^^ xtime b := by
  unfold xtime
  rw [UInt8.shiftLeft_xor, pick_xor_right (by decide), xor_xor_xor_comm]

/-- Horner's rule is additive in what it adds at each step. -/
theorem horner_xor {p q r : UInt8 → UInt8} :
    ∀ (ms : List UInt8) (x y : UInt8), (∀ m ∈ ms, r m = p m ^^^ q m) →
      ms.foldl (fun acc m => xtime acc ^^^ r m) (x ^^^ y) =
        ms.foldl (fun acc m => xtime acc ^^^ p m) x ^^^
          ms.foldl (fun acc m => xtime acc ^^^ q m) y
  | [], _, _, _ => rfl
  | m :: ms, x, y, h => by
    simp only [List.foldl_cons]
    rw [h m List.mem_cons_self, xtime_xor, xor_xor_xor_comm]
    exact horner_xor ms _ _ fun k hk => h k (List.mem_cons_of_mem _ hk)

theorem mul_xor_left (a a' b : UInt8) : mul (a ^^^ a') b = mul a b ^^^ mul a' b := by
  have h := horner_xor (p := pick a b) (q := pick a' b) basis 0 0 fun m _ => pick_xor_left a a' b m
  exact h

theorem mul_xor_right (a b b' : UInt8) : mul a (b ^^^ b') = mul a b ^^^ mul a b' := by
  have h := horner_xor (p := pick a b) (q := pick a b') basis 0 0
    fun m hm => pick_xor_right hm a b b'
  exact h

/-- An additive map sends zero to zero. -/
theorem additive_zero {f : UInt8 → UInt8} (hf : ∀ a b, f (a ^^^ b) = f a ^^^ f b) : f 0 = 0 := by
  have h := hf 0 0
  rw [UInt8.xor_self] at h
  rw [h, UInt8.xor_self]

/-- Additive maps that agree on the powers of `x` agree. -/
theorem ext_of_basis {f g : UInt8 → UInt8} (hf : ∀ a b, f (a ^^^ b) = f a ^^^ f b)
    (hg : ∀ a b, g (a ^^^ b) = g a ^^^ g b) (h : ∀ e ∈ basis, f e = g e) (a : UInt8) :
    f a = g a := by
  have hpick : ∀ e ∈ basis, f (pick e a e) = g (pick e a e) := by
    intro e he
    unfold pick
    split
    · rw [additive_zero hf, additive_zero hg]
    · exact h e he
  have hfold : ∀ (ms : List UInt8) (x : UInt8), (∀ m ∈ ms, m ∈ basis) → f x = g x →
      f (ms.foldl (fun acc m => acc ^^^ pick m a m) x) =
        g (ms.foldl (fun acc m => acc ^^^ pick m a m) x) := by
    intro ms
    induction ms with
    | nil => intro x _ hx; exact hx
    | cons m ms ih =>
      intro x hms hx
      apply ih _ fun k hk => hms k (List.mem_cons_of_mem _ hk)
      rw [hf, hg, hx, hpick m (hms m List.mem_cons_self)]
  rw [byte_eq_picks a]
  exact hfold basis 0 (fun _ h => h) ((additive_zero hf).trans (additive_zero hg).symm)

theorem mul_comm (a b : UInt8) : mul a b = mul b a := by
  refine ext_of_basis (f := fun a => mul a b) (g := fun a => mul b a)
    (fun _ _ => mul_xor_left _ _ _) (fun _ _ => mul_xor_right _ _ _) ?_ a
  intro e he
  refine ext_of_basis (f := fun b => mul e b) (g := fun b => mul b e)
    (fun _ _ => mul_xor_right _ _ _) (fun _ _ => mul_xor_left _ _ _) ?_ b
  revert e
  decide +kernel

theorem one_mul (a : UInt8) : mul 1 a = a :=
  ext_of_basis (f := fun a => mul 1 a) (g := fun a => a) (fun _ _ => mul_xor_right _ _ _)
    (fun _ _ => rfl) (by decide +kernel) a

/-- Horner's rule commutes with a multiplication by `x`. -/
theorem horner_xtime (r : UInt8 → UInt8) :
    ∀ (ms : List UInt8) (x : UInt8),
      ms.foldl (fun acc m => xtime acc ^^^ xtime (r m)) (xtime x) =
        xtime (ms.foldl (fun acc m => xtime acc ^^^ r m) x)
  | [], _ => rfl
  | m :: ms, x => by
    simp only [List.foldl_cons]
    rw [← xtime_xor]
    exact horner_xtime r ms _

theorem xtime_mul (a b : UInt8) : mul (xtime a) b = xtime (mul a b) := by
  have hpick : ∀ m, pick (xtime a) b m = xtime (pick a b m) := by
    intro m
    unfold pick
    split
    · rfl
    · rfl
  have h := horner_xtime (pick a b) basis 0
  simp only [← hpick] at h
  exact h

/-- The powers of `x` are what multiplications by `x` make of `1`. -/
theorem basis_induction {P : UInt8 → Prop} (one : P 1) (step : ∀ a, P a → P (xtime a)) :
    ∀ e ∈ basis, P e := by
  have h2 : P 2 := step 1 one
  have h4 : P 4 := step 2 h2
  have h8 : P 8 := step 4 h4
  have h16 : P 16 := step 8 h8
  have h32 : P 32 := step 16 h16
  have h64 : P 64 := step 32 h32
  have h128 : P 128 := step 64 h64
  simp only [basis, List.forall_mem_cons]
  exact ⟨h128, h64, h32, h16, h8, h4, h2, one, fun _ h => absurd h List.not_mem_nil⟩

theorem mul_assoc (a b c : UInt8) : mul (mul a b) c = mul a (mul b c) := by
  refine ext_of_basis (f := fun a => mul (mul a b) c) (g := fun a => mul a (mul b c))
    (fun _ _ => by simp only [mul_xor_left]) (fun _ _ => mul_xor_left _ _ _) ?_ a
  refine basis_induction ?_ ?_
  · rw [one_mul, one_mul]
  intro e ih
  rw [xtime_mul, xtime_mul, ih, xtime_mul]

theorem inv_mul (a : UInt8) (h : a ≠ 0) : mul (inv a) a = 1 := by
  revert a
  apply forall_byte
  decide +kernel

end Poly84320

/-- The bytes with polynomial arithmetic modulo `x^8 + x^4 + x^3 + x^2 + 1`. -/
def poly84320 : GF256 where
  add a b := a ^^^ b
  mul := Poly84320.mul
  div a b := Poly84320.mul a (Poly84320.inv b)
  addAssoc := UInt8.xor_assoc
  addComm := UInt8.xor_comm
  zeroAdd _ := UInt8.zero_xor
  addSelf _ := UInt8.xor_self
  mulAssoc := Poly84320.mul_assoc
  mulComm := Poly84320.mul_comm
  oneMul := Poly84320.one_mul
  mulAdd := Poly84320.mul_xor_right
  divMul a b hb := by
    rw [Poly84320.mul_assoc, Poly84320.inv_mul b hb, Poly84320.mul_comm, Poly84320.one_mul]

end RlncStreaming.Kodr
