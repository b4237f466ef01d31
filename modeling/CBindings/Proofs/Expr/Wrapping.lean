import CBindings.Proofs.Expr.Dependence
import CBindings.Proofs.Integer.Wrapping

/-! Wrapping at every step is wrapping once. A tree of ring and bit operators over leaves of one
type has the value that it has over the unbounded integers, wrapped to this type. -/

namespace CBindings

open IntType

variable {t : IntType}

def UnaryOp.unwrapped? (op : UnaryOp) : Option (Int → Int) :=
  match op with
  | negate => some fun x => -x
  | complement => some Int.lnot
  | plus => some fun x => x
  | not => none

theorem UnaryOp.apply_wrapped {op : UnaryOp} {f : Int → Int} (known : op.unwrapped? = some f)
    (enough : 32 ≤ t.bits) (x : Int) (style : NumberStyle) :
    ∃ style', op.apply ⟨t.wrap x, t, style⟩ = ⟨t.wrap (f x), t, style'⟩ := by
  cases op <;> cases known <;> simp only [apply, promote_of_le enough]
  case negate =>
    rw [wrap_neg_wrap]
    exact ⟨_, rfl⟩
  case complement =>
    rw [wrap_lnot_wrap]
    exact ⟨_, rfl⟩
  case plus => exact ⟨_, rfl⟩

def BinaryOp.unwrapped? (op : BinaryOp) : Option (Int → Int → Int) :=
  match op with
  | add => some fun x y => x + y
  | sub => some fun x y => x - y
  | mul => some fun x y => x * y
  | bitAnd => some Int.land
  | bitOr => some Int.lor
  | bitXor => some Int.xor
  | _ => none

theorem BinaryOp.apply_wrapped {op : BinaryOp} {f : Int → Int → Int}
    (known : op.unwrapped? = some f) (enough : 32 ≤ t.bits) (x y : Int)
    (style style' : NumberStyle) : op.apply ⟨t.wrap x, t, style⟩ ⟨t.wrap y, t, style'⟩ =
      .ok ⟨t.wrap (f x y), t, .decimal⟩ := by
  cases op <;> cases known <;> simp only [apply, common_self enough, wrap_wrap]
  case add => rw [wrap_add_wrap]
  case sub => rw [wrap_sub_wrap]
  case mul => rw [wrap_mul_wrap]
  case bitAnd => rw [combine_wrap bitwise_and fun w => ofInt_land]
  case bitOr => rw [combine_wrap bitwise_or fun w => ofInt_lor]
  case bitXor => rw [combine_wrap bitwise_xor fun w => ofInt_lxor]

theorem BinaryOp.undecided_of_unwrapped {op : BinaryOp} {f : Int → Int → Int}
    (known : op.unwrapped? = some f) (a : IntValue) : op.decided? a = none := by
  cases op with
  | or | and => cases known
  | _ => rfl

namespace Expr

/-- What the ring and bit operators at the top of an expression combine. -/
def leaves : Expr → List Expr
  | .unary op operand =>
    match op.unwrapped? with
    | some _ => operand.leaves
    | none => [.unary op operand]
  | .binary op left right =>
    match op.unwrapped? with
    | some _ => left.leaves ++ right.leaves
    | none => [.binary op left right]
  | leaf => [leaf]

/-- The value over the unbounded integers, from the values of the leaves. -/
def unwrapped (value : Expr → Int) : Expr → Int
  | .unary op operand =>
    match op.unwrapped? with
    | some f => f (operand.unwrapped value)
    | none => value (.unary op operand)
  | .binary op left right =>
    match op.unwrapped? with
    | some f => f (left.unwrapped value) (right.unwrapped value)
    | none => value (.binary op left right)
  | leaf => value leaf

section

variable (names : String → Except ExpressionError IntValue)
  (casts : String → Except ExpressionError IntType) (widen : Bool)

/-- The expression has this value of this type, in some notation. -/
def HasValue (expr : Expr) (t : IntType) (n : Int) : Prop :=
  ∃ style, expr.evaluate names casts widen = .ok ⟨n, t, style⟩

end

variable {names : String → Except ExpressionError IntValue}
  {casts : String → Except ExpressionError IntType} {widen : Bool} {value : Expr → Int}

theorem hasValue_leaf {leaf : Expr} (alone : leaf.leaves = [leaf])
    (same : leaf.unwrapped value = value leaf) (enough : 32 ≤ t.bits)
    (known : ∀ e ∈ leaf.leaves,
      t.fits (value e) = true ∧ e.HasValue names casts widen t (value e)) :
    leaf.HasValue names casts widen t (t.wrap (leaf.unwrapped value)) := by
  rw [alone] at known
  obtain ⟨fits, evaluated⟩ := known leaf List.mem_cons_self
  rw [same, wrap_of_fits (by omega) fits]
  exact evaluated

/-- Where all leaves have values of one type that is no narrower than `int`, so has the tree, and
its value is the one over the unbounded integers, wrapped once. -/
theorem evaluate_wraps_once (expr : Expr) (enough : 32 ≤ t.bits)
    (known : ∀ leaf ∈ expr.leaves,
      t.fits (value leaf) = true ∧ leaf.HasValue names casts widen t (value leaf)) :
    expr.HasValue names casts widen t (t.wrap (expr.unwrapped value)) := by
  induction expr with
  | literal _ | name _ | call _ | cast _ _ | conditional _ _ _ =>
    exact hasValue_leaf rfl rfl enough known
  | unary op operand ih =>
    cases ring : op.unwrapped? with
    | none => exact hasValue_leaf (by simp [leaves, ring]) (by simp [unwrapped, ring]) enough known
    | some f =>
      simp only [leaves, ring] at known
      obtain ⟨style, inner⟩ := ih known
      obtain ⟨style', applied⟩ := UnaryOp.apply_wrapped ring enough (operand.unwrapped value) style
      simp only [unwrapped, ring]
      exact ⟨style', evaluate_unary_eq_ok.mpr ⟨_, inner, applied.symm⟩⟩
  | binary op left right ihLeft ihRight =>
    cases ring : op.unwrapped? with
    | none => exact hasValue_leaf (by simp [leaves, ring]) (by simp [unwrapped, ring]) enough known
    | some f =>
      simp only [leaves, ring, List.mem_append, or_imp, forall_and] at known
      obtain ⟨style, first⟩ := ihLeft fun leaf member =>
        ⟨known.1.1 leaf member, known.2.1 leaf member⟩
      obtain ⟨style', second⟩ := ihRight fun leaf member =>
        ⟨known.1.2 leaf member, known.2.2 leaf member⟩
      have undecided := BinaryOp.undecided_of_unwrapped ring
        ⟨t.wrap (left.unwrapped value), t, style⟩
      have applied := BinaryOp.apply_wrapped ring enough (left.unwrapped value)
        (right.unwrapped value) style style'
      simp only [unwrapped, ring]
      exact ⟨_, evaluate_binary_eq_ok.mpr ⟨_, first, .inr ⟨undecided, _, second, applied⟩⟩⟩

def mixedTree : Expr :=
  binary .bitXor
    (binary .bitAnd (binary .mul (.name "X") (.name "Y")) (.unary .complement (.name "X")))
    (.unary .negate (binary .add (.name "Y") (.name "Y")))

def mixedNames (name : String) : Except ExpressionError IntValue :=
  .ok ⟨if name = "X" then -7 else 2147483647, .int, .decimal⟩

/-- The product and the sum both leave the range of `int`, and so does the value without bounds. -/
theorem mixedTree_wraps_once :
    let value : Expr → Int := fun leaf => if leaf = .name "X" then -7 else 2147483647
    (∀ leaf ∈ mixedTree.leaves, IntType.int.fits (value leaf) = true ∧
        leaf.HasValue mixedNames noCasts false .int (value leaf)) ∧
      mixedTree.unwrapped value = -4294967292 ∧
      mixedTree.HasValue mixedNames noCasts false .int 4 := by
  intro value
  have known : ∀ leaf ∈ mixedTree.leaves, IntType.int.fits (value leaf) = true ∧
      leaf.HasValue mixedNames noCasts false .int (value leaf) := by
    have all : mixedTree.leaves = [.name "X", .name "Y", .name "X", .name "Y", .name "Y"] := rfl
    have x : IntType.int.fits (value (.name "X")) = true ∧
        HasValue mixedNames noCasts false (.name "X") .int (value (.name "X")) := ⟨rfl, _, rfl⟩
    have y : IntType.int.fits (value (.name "Y")) = true ∧
        HasValue mixedNames noCasts false (.name "Y") .int (value (.name "Y")) := ⟨rfl, _, rfl⟩
    simp only [all, List.forall_mem_cons]
    exact ⟨x, y, x, y, y, fun _ member => absurd member List.not_mem_nil⟩
  have unbounded : mixedTree.unwrapped value = -4294967292 := by decide +kernel
  have once := evaluate_wraps_once mixedTree (by decide) known
  rw [unbounded] at once
  exact ⟨known, unbounded, once⟩

end Expr

end CBindings
