import ClassScript.Proofs.Likeness.Methods

set_option autoImplicit false

/-!
# Programs that are alike run alike

By induction on the fuel, which both runs count down alike: if all that is done with some fuel is
mirrored, so is all that is done with one more.
-/

namespace ClassScript

/-- With the given fuel, trees and values that are alike do what mirrors each other. -/
structure MirrorsAll (K : Guise) (fuel : Nat) : Prop where
  evaluate : ∀ {p : Pair} {marks frames} {e e' : Expr}, p.Matched K →
    p.chart.Along marks p.left.current → e.Alike K marks frames e' →
    Mirrors K p (AlikeResult K) (Eval.evaluate fuel e) (Eval.evaluate fuel e')
  evaluateAll : ∀ {p : Pair} {marks frames} {es es' : List Expr}, p.Matched K →
    p.chart.Along marks p.left.current → Expr.AlikeAll K marks frames es es' →
    Mirrors K p (fun vs ws p' => List.Forall₂ (Value.Alike K p'.chart) vs ws)
      (Eval.evaluateAll fuel es) (Eval.evaluateAll fuel es')
  call : ∀ {p : Pair} {f f' : Value} {vs ws : List Value} {l l' : Nat}, p.Matched K →
    f.Alike K p.chart f' → List.Forall₂ (Value.Alike K p.chart) vs ws → K.line l l' →
    Mirrors K p (AlikeResult K) (Eval.call fuel f vs l) (Eval.call fuel f' ws l')
  invoke : ∀ {p : Pair} {f f' : Closure} {vs ws : List Value}, p.Matched K →
    f.Alike K p.chart [] f' → List.Forall₂ (Value.Alike K p.chart) vs ws →
    Mirrors K p (AlikeResult K) (Eval.invoke fuel f vs) (Eval.invoke fuel f' ws)
  execute : ∀ {p : Pair} {marks frames} {s s' : Stmt}, p.Matched K →
    p.chart.Along marks p.left.current → s.Alike K marks frames s' →
    Mirrors K p (Flow.Alike K) (Eval.execute fuel s) (Eval.execute fuel s')
  executeAll : ∀ {p : Pair} {marks frames} {ss ss' : List Stmt}, p.Matched K →
    p.chart.Along marks p.left.current → Stmt.AlikeAll K marks frames ss ss' →
    Mirrors K p (Flow.Alike K) (Eval.executeAll fuel ss) (Eval.executeAll fuel ss')
  repeatWhile : ∀ {p : Pair} {marks frames} {e e' : Expr} {s s' : Stmt}, p.Matched K →
    p.chart.Along marks p.left.current → e.Alike K marks frames e' → s.Alike K marks frames s' →
    Mirrors K p (Flow.Alike K) (Eval.repeatWhile fuel e s) (Eval.repeatWhile fuel e' s')

/-- The scope at hand lies where it lay. -/
theorem Pair.Grown.along {p p' : Pair} {marks : List Bool} (h : p.Grown p')
    (along : p.chart.Along marks p.left.current) : p'.chart.Along marks p'.left.current := by
  rw [h.current]
  exact along.mono h.kept

/-- A flow stays alike when its scope is left. -/
theorem Flow.Alike.back {K : Guise} {p : Pair} (f : Nat) {flow flow' : Flow}
    (h : flow.Alike K flow' p) : flow.Alike K flow' (p.moveTo f) := by
  cases h with
  | normal => exact .normal _
  | returned same => exact .returned same

namespace MirrorsAll

variable {K : Guise} {fuel : Nat} {p : Pair} {marks : List Bool} {frames : List Frame}

/-! ## Expressions -/

section Expressions

variable (h : MirrorsAll K fuel) (m : p.Matched K)
  (along : p.chart.Along marks p.left.current)

include h m along

theorem evaluate_succ {e e' : Expr} (same : e.Alike K marks frames e') :
    Mirrors K p (AlikeResult K) (Eval.evaluate (fuel + 1) e) (Eval.evaluate (fuel + 1) e') := by
  cases same with
  | constant value => exact .pure m (.ofConstant value)
  | grouping inner => exact h.evaluate m along inner
  | unary token inner =>
    apply (h.evaluate m along inner).bind
    intro v w p₁ m₁ _ value
    exact .applyUnary m₁ value token
  | binary first token second =>
    apply (h.evaluate m along first).bind
    intro v w p₁ m₁ grown₁ value
    apply (h.evaluate m₁ (grown₁.along along) second).bind
    intro v' w' p₂ m₂ grown₂ value'
    exact .applyBinary m₂ (value.mono grown₂.kept) value' token
  | logical first token second =>
    apply (h.evaluate m along first).bind
    intro v w p₁ m₁ grown₁ value
    have decides : ∀ t t' : Token, t'.kind = t.kind → Eval.decides t' w = Eval.decides t v := by
      intro t t' kind
      rw [Eval.decides, Eval.decides, kind, value.isTruthy]
    rw [decides _ _ token.kind]
    split
    · exact .pure m₁ value
    · exact h.evaluate m₁ (grown₁.along along) second
  | name same => exact .lookUp m along same
  | assign same inner =>
    apply (h.evaluate m along inner).bind
    intro v w p₁ m₁ grown₁ value
    apply (Mirrors.assign m₁ (grown₁.along along) same value).bind
    intro _ _ p₂ m₂ grown₂ _
    exact .pure m₂ (value.mono grown₂.kept)
  | call first token rest =>
    apply (h.evaluate m along first).bind
    intro f f' p₁ m₁ grown₁ value
    apply (h.evaluateAll m₁ (grown₁.along along) rest).bind
    intro vs ws p₂ m₂ grown₂ values
    exact h.call m₂ (value.mono grown₂.kept) values token.line
  | get inner token =>
    apply (h.evaluate m along inner).bind
    intro v w p₁ m₁ _ value
    cases value with
    | object id types => exact .property m₁ id types token
    | nil | bool | number | text | native | function | bound | ofClass =>
      exact .fail m₁ _ token.line
  | set first token second =>
    apply (h.evaluate m along first).bind
    intro v w p₁ m₁ grown₁ value
    cases value with
    | object id types =>
      apply (h.evaluate m₁ (grown₁.along along) second).bind
      intro v' w' p₂ m₂ _ value'
      refine .done v' w' rfl ?_ (m₂.setField id _ value') (Pair.grown_quiet rfl rfl) value'
      rw [token.lexeme]
      rfl
    | nil | bool | number | text | native | function | bound | ofClass =>
      exact .fail m₁ _ token.line
  | this same => exact .lookUp m along same
  | super same token => exact .superMethod m along same token

theorem evaluateAll_succ {es es' : List Expr} (same : Expr.AlikeAll K marks frames es es') :
    Mirrors K p (fun vs ws p' => List.Forall₂ (Value.Alike K p'.chart) vs ws)
      (Eval.evaluateAll (fuel + 1) es) (Eval.evaluateAll (fuel + 1) es') := by
  cases same with
  | nil => exact .pure m .nil
  | cons head tail =>
    apply (h.evaluate m along head).bind
    intro v w p₁ m₁ grown₁ value
    apply (h.evaluateAll m₁ (grown₁.along along) tail).bind
    intro vs ws p₂ m₂ grown₂ values
    exact .pure m₂ (.cons (value.mono grown₂.kept) values)

end Expressions

/-! ## Calls -/

section Calls

variable (h : MirrorsAll K fuel) (m : p.Matched K)

include h m

/-- A class is called: an instance is made, and the initializer runs if there is one. -/
theorem construct {c c' : Class} {vs ws : List Value} {l l' : Nat} (same : c.Alike K p.chart c')
    (values : List.Forall₂ (Value.Alike K p.chart) vs ws) (line : K.line l l') :
    Mirrors K p (AlikeResult K) (Eval.call (fuel + 1) (.ofClass c) vs l)
      (Eval.call (fuel + 1) (.ofClass c') ws l') := by
  unfold Eval.call
  dsimp only
  rw [same.arity]
  apply (Mirrors.checkArity m values c.arity line).bind
  rintro _ _ _ - - rfl
  apply (Mirrors.allocate m same).bind
  rintro _ _ p₁ m₁ grown₁ ⟨id, rfl, rfl, classes⟩
  obtain ⟨hf, hf'⟩ | ⟨f, f', hf, hf', method⟩ := (classes.findMethod? initializerName).both
  · rw [hf, hf']
    exact .pure m₁ (.object id classes)
  · rw [hf, hf']
    apply (Mirrors.receive m₁ method id classes).bind
    intro g g' p₂ m₂ grown₂ function
    have values₂ := values.imp fun _ _ h => h.mono (grown₁.trans grown₂).kept
    apply (h.invoke m₂ function values₂).bind
    intro _ _ p₃ m₃ grown₃ _
    exact .pure m₃ (.object id (classes.mono (grown₂.trans grown₃).kept))

theorem call_succ {f f' : Value} {vs ws : List Value} {l l' : Nat} (same : f.Alike K p.chart f')
    (values : List.Forall₂ (Value.Alike K p.chart) vs ws) (line : K.line l l') :
    Mirrors K p (AlikeResult K) (Eval.call (fuel + 1) f vs l)
      (Eval.call (fuel + 1) f' ws l') := by
  cases same with
  | native f =>
    apply (Mirrors.checkArity m values f.arity line).bind
    rintro _ _ _ - - rfl
    exact .applyNative m values f line
  | @function f f' _ function | @bound f f' _ function =>
    change Mirrors K p _ (Eval.checkArity f.arity vs l >>= fun _ => Eval.invoke fuel f vs)
      (Eval.checkArity f'.arity ws l' >>= fun _ => Eval.invoke fuel f' ws)
    rw [function.arity]
    apply (Mirrors.checkArity m values f.arity line).bind
    rintro _ _ _ - - rfl
    exact h.invoke m function values
  | ofClass classes => exact h.construct m classes values line
  | nil | bool | number | text | object => exact .fail m _ line

omit h m in
/-- The parameters have the arguments for values. -/
theorem parameters {C : Chart} {mark : Bool} {ps ps' : List Token} {vs ws : List Value}
    (names : List.Forall₂ (K.SameName mark) ps ps')
    (values : List.Forall₂ (Value.Alike K C) vs ws) :
    Bindings.Same (Value.Alike K C)
      ((Bindings.ofPairs ((ps.map Token.lexeme).zip vs)).rename (K.rename mark))
      (Bindings.ofPairs ((ps'.map Token.lexeme).zip ws)) := by
  rw [Bindings.rename_ofPairs (K.rename_injective mark)]
  apply Bindings.Same.ofPairs
  induction names generalizing vs ws with
  | nil => exact .nil
  | cons first _ ih =>
    cases values with
    | nil => exact .nil
    | cons value rest => exact .cons ⟨first.lexeme.symm, value⟩ (ih rest)

theorem invoke_succ {f f' : Closure} {vs ws : List Value} (same : f.Alike K p.chart [] f')
    (values : List.Forall₂ (Value.Alike K p.chart) vs ws) :
    Mirrors K p (AlikeResult K) (Eval.invoke (fuel + 1) f vs) (Eval.invoke (fuel + 1) f' ws) := by
  obtain ⟨marks, frames, along, code⟩ := same.code
  obtain ⟨declaration, scope, isInitializer⟩ := f
  obtain ⟨declaration', scope', isInitializer'⟩ := f'
  obtain rfl : scope' = scope := same.scope
  dsimp only at along code
  unfold Eval.invoke
  dsimp only
  cases code with
  | @mk _ _ _ _ ps ps' body body' mark token names inner =>
    have opened := Mirrors.openScope m scope' mark (parameters names values)
    apply opened.bind
    rintro _ _ p₁ m₁ grown₁ ⟨rfl, rfl, rfl⟩
    have inside := Pair.along_push (Bindings.ofPairs ((ps.map Token.lexeme).zip vs))
      (Bindings.ofPairs ((ps'.map Token.lexeme).zip ws)) mark along
    have within := h.executeAll (m₁.moveTo p.left.scopes.size) inside inner
    apply (within.inScope m₁ fun _ _ _ flows => flows.back _).bind
    intro flow flow' p₂ m₂ grown₂ flows
    exact .result m₂ (same.mono (grown₁.trans grown₂).kept) flows

end Calls

/-! ## Statements -/

section Statements

variable (h : MirrorsAll K fuel) (m : p.Matched K)
  (along : p.chart.Along marks p.left.current)

include h m along

omit h in
/-- A name is given a value where it is declared. -/
theorem declare {t t' : Token} {v w : Value} (name : K.SameName (marks.headD false) t t')
    (value : v.Alike K p.chart w) :
    Mirrors K p (Flow.Alike K) (Eval.define t.lexeme v >>= fun _ => pure .normal)
      (Eval.define t'.lexeme w >>= fun _ => pure .normal) := by
  have declared := Mirrors.define m t.lexeme value
  rw [m.marked_current along, ← name.lexeme] at declared
  apply declared.bind
  intro _ _ p₁ m₁ _ _
  exact .pure m₁ (.normal p₁)

theorem varDecl {t t' : Token} {e e' : Option Expr} (name : K.SameName (marks.headD false) t t')
    (inner : Expr.AlikeOption K marks frames e e') :
    Mirrors K p (Flow.Alike K) (Eval.execute (fuel + 1) (.varDecl t e))
      (Eval.execute (fuel + 1) (.varDecl t' e')) := by
  cases inner with
  | none => exact declare m along name .nil
  | some same =>
    apply (h.evaluate m along same).bind
    intro v w p₁ m₁ grown₁ value
    exact declare m₁ (grown₁.along along) name value

theorem block {mark : Bool} {body body' : List Stmt}
    (inner : Stmt.AlikeAll K (mark :: marks) ([] :: frames) body body') :
    Mirrors K p (Flow.Alike K) (Eval.execute (fuel + 1) (.block body))
      (Eval.execute (fuel + 1) (.block body')) := by
  unfold Eval.execute
  dsimp only
  apply (Mirrors.get m).bind
  rintro _ _ p m - ⟨rfl, rfl, rfl⟩
  rw [m.effects.current]
  apply (Mirrors.openScope m p.left.current mark .nil).bind
  rintro _ _ p₁ m₁ grown₁ ⟨rfl, rfl, rfl⟩
  have inside := Pair.along_push [] [] mark along
  have within := h.executeAll (m₁.moveTo p.left.scopes.size) inside inner
  exact within.inScope m₁ fun _ _ _ flows => flows.back _

omit h in
theorem funDecl {f f' : FunctionDecl} (name : K.SameName (marks.headD false) f.name f'.name)
    {frames' : List Frame} (inner : f.Alike K marks frames' f') :
    Mirrors K p (Flow.Alike K) (Eval.execute (fuel + 1) (.funDecl f))
      (Eval.execute (fuel + 1) (.funDecl f')) := by
  unfold Eval.execute
  dsimp only
  apply (Mirrors.get m).bind
  rintro _ _ p m - ⟨rfl, rfl, rfl⟩
  rw [m.effects.current]
  apply (Mirrors.freshSerial m).bind
  rintro _ serial _ m₁ grown₁ ⟨rfl, rfl⟩
  exact declare m₁ along name (.function serial ⟨rfl, rfl, marks, frames', along, inner⟩)

theorem classDecl {t t' : Token} {e e' : Option Expr} {methods methods' : List FunctionDecl}
    (token : K.SameToken t t') (name : K.SameName (marks.headD false) t t')
    {frames' : List Frame} (superclass : Expr.AlikeOption K marks frames e e')
    (inner : FunctionDecl.AlikeAll K (false :: e.elim marks fun _ => false :: marks) frames'
      methods methods') :
    Mirrors K p (Flow.Alike K) (Eval.execute (fuel + 1) (.classDecl t e methods))
      (Eval.execute (fuel + 1) (.classDecl t' e' methods')) := by
  unfold Eval.execute
  cases superclass with
  | none =>
    apply (Mirrors.declareClass m along token name .none inner).bind
    intro _ _ p₁ m₁ _ _
    exact .pure m₁ (.normal p₁)
  | some same =>
    dsimp only
    apply (h.evaluate m along same).bind
    intro v w p₁ m₁ grown₁ value
    cases value with
    | ofClass classes =>
      apply (Mirrors.declareClass m₁ (grown₁.along along) token name (.some classes) inner).bind
      intro _ _ p₂ m₂ _ _
      exact .pure m₂ (.normal p₂)
    | nil | bool | number | text | native | function | bound | object =>
      exact .fail m₁ _ (K.line_getD same.line? token.line)

theorem execute_succ {s s' : Stmt} (same : s.Alike K marks frames s') :
    Mirrors K p (Flow.Alike K) (Eval.execute (fuel + 1) s) (Eval.execute (fuel + 1) s') := by
  cases same with
  | expression inner =>
    apply (h.evaluate m along inner).bind
    intro _ _ p₁ m₁ _ _
    exact .pure m₁ (.normal p₁)
  | print inner =>
    apply (h.evaluate m along inner).bind
    intro v w p₁ m₁ _ value
    rw [value.toText]
    apply (Mirrors.print m₁ v.toText (K.line_getD inner.line? K.noLine)).bind
    intro _ _ p₂ m₂ _ _
    exact .pure m₂ (.normal p₂)
  | varDecl name inner => exact h.varDecl m along name inner
  | block mark inner => exact h.block m along inner
  | ifThen condition first =>
    apply (h.evaluate m along condition).bind
    intro v w p₁ m₁ grown₁ value
    rw [value.isTruthy]
    split
    · exact h.execute m₁ (grown₁.along along) first
    · exact .pure m₁ (.normal p₁)
  | ifElse condition first second =>
    apply (h.evaluate m along condition).bind
    intro v w p₁ m₁ grown₁ value
    rw [value.isTruthy]
    split
    · exact h.execute m₁ (grown₁.along along) first
    · exact h.execute m₁ (grown₁.along along) second
  | whileLoop condition body => exact h.repeatWhile m along condition body
  | funDecl name inner => exact funDecl m along name inner
  | returnStmt _ inner =>
    cases inner with
    | none => exact .pure m (.returned .nil)
    | some same =>
      apply (h.evaluate m along same).bind
      intro _ _ p₁ m₁ _ value
      exact .pure m₁ (.returned value)
  | rootClass token name inner =>
    have absent : Expr.AlikeOption K marks frames none none := .none
    exact h.classDecl m along token name absent inner
  | subclass token name superclass inner =>
    exact h.classDecl m along token name (.some superclass) inner

theorem executeAll_succ {ss ss' : List Stmt} (same : Stmt.AlikeAll K marks frames ss ss') :
    Mirrors K p (Flow.Alike K) (Eval.executeAll (fuel + 1) ss)
      (Eval.executeAll (fuel + 1) ss') := by
  cases same with
  | nil => exact .pure m (.normal p)
  | cons head tail =>
    apply (h.execute m along head).bind
    intro flow flow' p₁ m₁ grown₁ flows
    cases flows with
    | normal => exact h.executeAll m₁ (grown₁.along along) tail
    | returned value => exact .pure m₁ (.returned value)

theorem repeatWhile_succ {e e' : Expr} {s s' : Stmt} (condition : e.Alike K marks frames e')
    (body : s.Alike K marks frames s') :
    Mirrors K p (Flow.Alike K) (Eval.repeatWhile (fuel + 1) e s)
      (Eval.repeatWhile (fuel + 1) e' s') := by
  apply (h.evaluate m along condition).bind
  intro v w p₁ m₁ grown₁ value
  rw [value.isTruthy]
  split
  · apply (h.execute m₁ (grown₁.along along) body).bind
    intro flow flow' p₂ m₂ grown₂ flows
    cases flows with
    | normal => exact h.repeatWhile m₂ (grown₂.along (grown₁.along along)) condition body
    | returned value => exact .pure m₂ (.returned value)
  · exact .pure m₁ (.normal p₁)

end Statements

/-! ## All fuels -/

/-- Without fuel, both stop at once. -/
theorem zero (K : Guise) : MirrorsAll K 0 where
  evaluate m _ _ := .spent m
  evaluateAll m _ _ := .spent m
  call m _ _ _ := .spent m
  invoke m _ _ := .spent m
  execute m _ _ := .spent m
  executeAll m _ _ := .spent m
  repeatWhile m _ _ _ := .spent m

theorem succ (h : MirrorsAll K fuel) : MirrorsAll K (fuel + 1) where
  evaluate m along same := h.evaluate_succ m along same
  evaluateAll m along same := h.evaluateAll_succ m along same
  call m same values line := h.call_succ m same values line
  invoke m same values := h.invoke_succ m same values
  execute m along same := h.execute_succ m along same
  executeAll m along same := h.executeAll_succ m along same
  repeatWhile m along condition body := h.repeatWhile_succ m along condition body

end MirrorsAll

/-- Whatever is done with any fuel is mirrored. -/
theorem mirrorsAll (K : Guise) (fuel : Nat) : MirrorsAll K fuel := by
  induction fuel with
  | zero => exact .zero K
  | succ fuel ih => exact ih.succ

/-! ## Programs -/

/-- Programs that are alike mirror each other. -/
theorem Mirrors.interpret {K : Guise} {fuel : Nat} {p : Pair} {frames : List Frame}
    {program program' : List Stmt} (m : p.Matched K) (here : p.left.current = globalScope)
    (same : Stmt.AlikeAll K [] frames program program') :
    Mirrors K p (fun _ _ _ => True) (Eval.interpret fuel program)
      (Eval.interpret fuel program') := by
  induction program generalizing p frames program' with
  | nil =>
    cases same
    exact .pure m trivial
  | cons s ss ih =>
    cases same with
    | cons head tail =>
      have along : p.chart.Along [] p.left.current := by
        rw [here]
        exact .globals
      apply ((mirrorsAll K fuel).execute m along head).bind
      intro _ _ p₁ m₁ grown₁ _
      exact ih m₁ (grown₁.current.trans here) tail

end ClassScript
