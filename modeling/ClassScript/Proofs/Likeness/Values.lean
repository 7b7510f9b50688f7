import ClassScript.Evaluation.Evaluate
import ClassScript.Proofs.Likeness.Trees
import ClassScript.Proofs.Scope.Related

set_option autoImplicit false

/-!
# Values that are alike

Two runs of programs that are alike go through states side by side.  Their scopes have the same
numbers, and it is known of each whether it is marked.  Functions are alike if they are closed over
the same scope and their declarations are alike within the scopes from there outward.
-/

namespace ClassScript

/-! ## Charts -/

/-- Where scopes lie, and which of them are marked. -/
structure Chart where
  scopes : Scopes Value
  marked : Nat → Bool

namespace Chart

/-- From a scope outward, the scopes are marked like this, up to the globals. -/
inductive Along (C : Chart) : List Bool → Nat → Prop where
  | globals : Along C [] globalScope
  | inside {mark : Bool} {marks : List Bool} {f g : Nat}
      (enclosed : C.scopes.enclosing? f = some g) (marked : C.marked f = mark)
      (rest : Along C marks g) : Along C (mark :: marks) f

/-- Scopes lie where they lay, and are marked as they were. -/
def Kept (C C' : Chart) : Prop :=
  ∀ f g, C.scopes.enclosing? f = some g →
    C'.scopes.enclosing? f = some g ∧ C'.marked f = C.marked f

theorem Kept.refl (C : Chart) : C.Kept C := fun _ _ h => ⟨h, rfl⟩

theorem Kept.trans {C C₁ C' : Chart} (h : C.Kept C₁) (k : C₁.Kept C') : C.Kept C' := by
  intro f g enclosed
  obtain ⟨enclosed₁, same⟩ := h f g enclosed
  obtain ⟨enclosed', same'⟩ := k f g enclosed₁
  exact ⟨enclosed', same'.trans same⟩

theorem Along.mono {C C' : Chart} {marks : List Bool} {f : Nat} (h : C.Along marks f)
    (kept : C.Kept C') : C'.Along marks f := by
  induction h with
  | globals => exact .globals
  | inside enclosed marked _ ih =>
    obtain ⟨enclosed', same⟩ := kept _ _ enclosed
    exact .inside enclosed' (same.trans marked) ih

end Chart

/-! ## Values -/

/-- Functions with the same scope and declarations that are alike there.  Between that scope and the
declaration there are as many more as there are inner marks. -/
structure Closure.Alike (K : Guise) (C : Chart) (inner : List Bool) (f f' : Closure) : Prop where
  scope : f'.scope = f.scope
  isInitializer : f'.isInitializer = f.isInitializer
  code : ∃ marks frames, C.Along marks f.scope ∧
    f.declaration.Alike K (inner ++ marks) frames f'.declaration

/-- The same class declaration, whose methods are still to get the scope of their receiver. -/
structure ClassLayer.Alike (K : Guise) (C : Chart) (l l' : ClassLayer) : Prop where
  serial : l'.serial = l.serial
  name : l'.name = l.name
  methods : Bindings.Same (Closure.Alike K C [false]) l.methods l'.methods

/-- Classes whose layers are alike. -/
def Class.Alike (K : Guise) (C : Chart) (c c' : Class) : Prop :=
  List.Forall₂ (ClassLayer.Alike K C) c.layers c'.layers

/-- Values that are the same but for the code of functions. -/
inductive Value.Alike (K : Guise) (C : Chart) : Value → Value → Prop where
  | nil : Value.Alike K C .nil .nil
  | bool (b : Bool) : Value.Alike K C (.bool b) (.bool b)
  | number (x : Float) : Value.Alike K C (.number x) (.number x)
  | text (s : String) : Value.Alike K C (.text s) (.text s)
  | native (f : Native) : Value.Alike K C (.native f) (.native f)
  | function {f f' : Closure} (serial : Nat) (same : f.Alike K C [] f') :
      Value.Alike K C (.function serial f) (.function serial f')
  | bound {f f' : Closure} (serial : Nat) (same : f.Alike K C [] f') :
      Value.Alike K C (.bound serial f) (.bound serial f')
  | ofClass {c c' : Class} (same : c.Alike K C c') : Value.Alike K C (.ofClass c) (.ofClass c')
  | object {c c' : Class} (id : Nat) (same : c.Alike K C c') :
      Value.Alike K C (.object ⟨id, c⟩) (.object ⟨id, c'⟩)

section Mono

variable {K : Guise} {C C' : Chart} (kept : C.Kept C')

include kept

theorem Closure.Alike.mono {inner : List Bool} {f f' : Closure} (h : f.Alike K C inner f') :
    f.Alike K C' inner f' := by
  obtain ⟨marks, frames, along, same⟩ := h.code
  exact ⟨h.scope, h.isInitializer, marks, frames, along.mono kept, same⟩

theorem Class.Alike.mono {c c' : Class} (h : c.Alike K C c') : c.Alike K C' c' :=
  List.Forall₂.imp (fun _ _ hl => ⟨hl.serial, hl.name, hl.methods.imp fun _ _ hm => hm.mono kept⟩) h

theorem Value.Alike.mono {v w : Value} (h : v.Alike K C w) : v.Alike K C' w := by
  cases h with
  | nil => exact .nil
  | bool b => exact .bool b
  | number x => exact .number x
  | text s => exact .text s
  | native f => exact .native f
  | function serial same => exact .function serial (same.mono kept)
  | bound serial same => exact .bound serial (same.mono kept)
  | ofClass same => exact .ofClass (same.mono kept)
  | object id same => exact .object id (same.mono kept)

end Mono

/-! ## What values that are alike have in common -/

section Common

variable {K : Guise} {C : Chart}

namespace Closure.Alike

variable {inner : List Bool} {f f' : Closure}

theorem name (h : f.Alike K C inner f') : f'.name = f.name := by
  obtain ⟨_, _, -, same⟩ := h.code
  exact same.sameToken.lexeme

theorem arity (h : f.Alike K C inner f') : f'.arity = f.arity := by
  obtain ⟨_, _, -, same⟩ := h.code
  exact same.arity

end Closure.Alike

namespace Class.Alike

variable {c c' : Class}

theorem own (h : c.Alike K C c') : c.own.Alike K C c'.own := by
  have layers : List.Forall₂ (ClassLayer.Alike K C) (c.own :: c.inherited)
    (c'.own :: c'.inherited) := h
  exact (List.forall₂_cons.1 layers).1

theorem findMethod? (h : c.Alike K C c') (name : String) :
    Option.Rel (Closure.Alike K C [false]) (c.findMethod? name) (c'.findMethod? name) := by
  have search : ∀ {ls ls' : List ClassLayer}, List.Forall₂ (ClassLayer.Alike K C) ls ls' →
      Option.Rel (Closure.Alike K C [false]) (ls.findSome? fun l => l.methods.get? name)
        (ls'.findSome? fun l => l.methods.get? name) := by
    intro ls ls' hl
    induction hl with
    | nil => exact .none
    | cons first _ ih =>
      rw [List.findSome?_cons, List.findSome?_cons]
      obtain ⟨hl, hl'⟩ | ⟨f, f', hl, hl', same⟩ := (first.methods.get? name).both
      · rw [hl, hl']
        exact ih
      · rw [hl, hl']
        exact .some same
  exact search h

theorem arity (h : c.Alike K C c') : c'.arity = c.arity := by
  unfold Class.arity
  obtain ⟨hc, hc'⟩ | ⟨f, f', hc, hc', same⟩ := (h.findMethod? initializerName).both
  · rw [hc, hc']
  · rw [hc, hc', Option.map_some, Option.map_some, same.arity]

theorem declare {l l' : ClassLayer} (own : l.Alike K C l') {s s' : Option Class}
    (superclass : Option.Rel (Class.Alike K C) s s') :
    (Class.declare l s).Alike K C (Class.declare l' s') := by
  refine List.Forall₂.cons own ?_
  cases superclass with
  | none => exact .nil
  | some same => exact same

end Class.Alike

namespace Value.Alike

variable {v w v' w' : Value}

theorem isTruthy (h : v.Alike K C w) : w.isTruthy = v.isTruthy := by
  cases h <;> rfl

theorem typeName (h : v.Alike K C w) : w.typeName = v.typeName := by
  cases h <;> rfl

theorem toText (h : v.Alike K C w) : w.toText = v.toText := by
  cases h with
  | nil | bool | number | text | native => rfl
  | function _ same | bound _ same => simp [Value.toText, Value.functionText, same.name]
  | ofClass same => exact same.own.name
  | object _ same => exact congrArg (· ++ " instance") same.own.name

theorem toInspected (h : v.Alike K C w) : w.toInspected = v.toInspected := by
  have text := h.toText
  cases h with
  | text s => rfl
  | nil | bool | number | native | function | bound | ofClass | object => exact text

theorem equals (h : v.Alike K C w) (h' : v'.Alike K C w') : w.equals w' = v.equals v' := by
  cases h with
  | ofClass same =>
    cases h' with
    | ofClass same' => simp [Value.equals, Class.serial, same.own.serial, same'.own.serial]
    | nil | bool | number | text | native | function | bound | object => rfl
  | nil | bool | number | text | native | function | bound | object => cases h' <;> rfl

theorem ofConstant (value : Constant) :
    (Value.ofConstant value).Alike K C (Value.ofConstant value) := by
  cases value with
  | number x => exact .number x
  | text s => exact .text s
  | true => exact .bool true
  | false => exact .bool false
  | nil => exact .nil

/-- What an operator makes of numbers is a number or a truth value. -/
theorem arithmetic {kind : TokenKind} {x y : Float} {value : Value}
    (h : Eval.arithmetic kind x y = some value) : value.Alike K C value := by
  unfold Eval.arithmetic at h
  split at h <;> cases h
  · exact .number _
  · exact .number _
  · exact .number _
  · exact .bool _
  · exact .bool _
  · exact .bool _
  · exact .bool _

end Value.Alike

end Common

end ClassScript
