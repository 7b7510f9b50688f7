import ClassScript.Proofs.Likeness.States
import ClassScript.Proofs.Tree.Retokened

set_option autoImplicit false

/-!
# States up to the numbers of nodes

What a state knows of a program is in the declarations of its functions and in the table of
distances.  With the table left out and the numbers of the declarations set to zero, states are the
same that differ in numbers alone; with the lines of tokens set to zero as well, those that differ in
numbers and lines.
-/

namespace ClassScript

/-! ## Other code in the same places -/

section WithCode

variable (g : FunctionDecl → FunctionDecl)

/-- The function with other code. -/
def Closure.withCode (f : Closure) : Closure :=
  { f with declaration := g f.declaration }

/-- The layer of a class with other code in its methods. -/
def ClassLayer.withCode (l : ClassLayer) : ClassLayer :=
  { l with methods := l.methods.map fun p => (p.1, p.2.withCode g) }

/-- The class with other code in all of its layers. -/
def Class.withCode (c : Class) : Class where
  own := c.own.withCode g
  inherited := c.inherited.map (ClassLayer.withCode g)

/-- The value with other code in all functions that it holds. -/
def Value.withCode : Value → Value
  | .nil => .nil
  | .bool b => .bool b
  | .number x => .number x
  | .text s => .text s
  | .native f => .native f
  | .function serial f => .function serial (f.withCode g)
  | .bound serial f => .bound serial (f.withCode g)
  | .ofClass c => .ofClass (c.withCode g)
  | .object o => .object { o with type := o.type.withCode g }

/-- The names with values that have other code. -/
def Bindings.withCode (b : Bindings Value) : Bindings Value :=
  b.map fun p => (p.1, p.2.withCode g)

/-- The state with other code in all functions, and without distances. -/
def State.withCode (σ : State) : State :=
  { σ with
    scopes := { cells := σ.scopes.cells.map fun scope =>
      { scope with bindings := scope.bindings.withCode g } }
    fields := σ.fields.map (Bindings.withCode g)
    distances := Distances.empty }

end WithCode

/-- The token on no line. -/
def Token.unplaced (t : Token) : Token := { t with line := 0 }

/-- The state but for the numbers of nodes. -/
def State.unnumbered (σ : State) : State :=
  σ.withCode FunctionDecl.unnumbered

/-- The state but for the numbers of nodes and the lines of tokens. -/
def State.unplaced (σ : State) : State :=
  σ.withCode fun d => d.unnumbered.mapTokens Token.unplaced

/-- Lists are the same once what may be different about their elements is left out. -/
theorem map_eq_of_forall₂ {α β : Type} {R : α → α → Prop} {as bs : List α} {f : α → β}
    (h : List.Forall₂ R as bs) (same : ∀ a b, R a b → f b = f a) : bs.map f = as.map f := by
  induction h with
  | nil => rfl
  | cons first _ ih => rw [List.map_cons, List.map_cons, ih, same _ _ first]

/-! ## What trees that are alike leave of their text -/

namespace Guise

/-- The guise changes no name, and tokens that go together are the same once they are exchanged. -/
structure Forgets (K : Guise) (h : Token → Token) : Prop where
  word : ∀ name, K.word name = name
  token : ∀ t t', K.SameToken t t' → h t' = h t

variable {K : Guise} {h : Token → Token} {mark : Bool} {t t' : Token}

theorem Forgets.rename (forgets : K.Forgets h) (mark : Bool) (name : String) :
    K.rename mark name = name := by
  cases mark with
  | false => rfl
  | true => exact forgets.word name

theorem Forgets.name (forgets : K.Forgets h) (same : K.SameName mark t t') : h t' = h t :=
  forgets.token t t'
    ⟨same.kind, same.lexeme.trans (forgets.rename mark _), same.literal, same.line⟩

theorem Forgets.names (forgets : K.Forgets h) {ts ts' : List Token}
    (same : List.Forall₂ (K.SameName mark) ts ts') : ts'.map h = ts.map h :=
  map_eq_of_forall₂ same fun _ _ => forgets.name

end Guise

section Text

variable {K : Guise} {h : Token → Token}

mutual

/-- Expressions that are alike have the same text, in so far as tokens are not forgotten. -/
theorem Expr.Alike.text (forgets : K.Forgets h) {marks : List Bool} {frames : List Frame}
    {e e' : Expr} (same : e.Alike K marks frames e') :
    e'.unnumbered.mapTokens h = e.unnumbered.mapTokens h := by
  match e, same with
  | .constant _, .constant _ => rfl
  | .unary .., .unary token inner =>
    simp only [Expr.unnumbered, Expr.mapTokens, forgets.token _ _ token, inner.text forgets]
  | .binary .., .binary first token second | .logical .., .logical first token second
  | .set .., .set first token second =>
    simp only [Expr.unnumbered, Expr.mapTokens, forgets.token _ _ token, first.text forgets,
      second.text forgets]
  | .grouping _, .grouping inner => simp only [Expr.unnumbered, Expr.mapTokens, inner.text forgets]
  | .name .., .name same | .this .., .this same =>
    simp only [Expr.unnumbered, Expr.mapTokens, forgets.name same.name]
  | .assign .., .assign same inner =>
    simp only [Expr.unnumbered, Expr.mapTokens, forgets.name same.name, inner.text forgets]
  | .call .., .call first token rest =>
    simp only [Expr.unnumbered, Expr.mapTokens, forgets.token _ _ token, first.text forgets,
      rest.text forgets]
  | .get .., .get inner token =>
    simp only [Expr.unnumbered, Expr.mapTokens, forgets.token _ _ token, inner.text forgets]
  | .super .., .super same token =>
    simp only [Expr.unnumbered, Expr.mapTokens, forgets.name same.name, forgets.token _ _ token]

theorem Expr.AlikeAll.text (forgets : K.Forgets h) {marks : List Bool} {frames : List Frame}
    {es es' : List Expr} (same : Expr.AlikeAll K marks frames es es') :
    Expr.mapTokensAll h (Expr.unnumberedAll es') =
      Expr.mapTokensAll h (Expr.unnumberedAll es) := by
  match es, same with
  | [], .nil => rfl
  | _ :: _, .cons head tail =>
    simp only [Expr.unnumberedAll, Expr.mapTokensAll, head.text forgets, tail.text forgets]

end

theorem Expr.AlikeOption.text (forgets : K.Forgets h) {marks : List Bool} {frames : List Frame}
    {e e' : Option Expr} (same : Expr.AlikeOption K marks frames e e') :
    (e'.map Expr.unnumbered).map (Expr.mapTokens h) =
      (e.map Expr.unnumbered).map (Expr.mapTokens h) := by
  cases same with
  | none => rfl
  | some same => exact congrArg some (same.text forgets)

mutual

/-- So have statements and functions. -/
theorem Stmt.Alike.text (forgets : K.Forgets h) {marks : List Bool} {frames : List Frame}
    {s s' : Stmt} (same : s.Alike K marks frames s') :
    s'.unnumbered.mapTokens h = s.unnumbered.mapTokens h := by
  match s, same with
  | .expression _, .expression inner | .print _, .print inner =>
    simp only [Stmt.unnumbered, Stmt.mapTokens, inner.text forgets]
  | .varDecl .., .varDecl name inner =>
    simp only [Stmt.unnumbered, Stmt.mapTokens, forgets.name name, inner.text forgets]
  | .block _, .block _ inner => simp only [Stmt.unnumbered, Stmt.mapTokens, inner.text forgets]
  | .ifThen .., .ifThen condition first =>
    simp only [Stmt.unnumbered, Stmt.mapTokens, condition.text forgets, first.text forgets]
  | .ifElse .., .ifElse condition first second =>
    simp only [Stmt.unnumbered, Stmt.mapTokens, condition.text forgets, first.text forgets,
      second.text forgets]
  | .whileLoop .., .whileLoop condition body =>
    simp only [Stmt.unnumbered, Stmt.mapTokens, condition.text forgets, body.text forgets]
  | .funDecl _, .funDecl _ inner => simp only [Stmt.unnumbered, Stmt.mapTokens, inner.text forgets]
  | .returnStmt .., .returnStmt token inner =>
    simp only [Stmt.unnumbered, Stmt.mapTokens, forgets.token _ _ token, inner.text forgets]
  | .classDecl _ none _, .rootClass token _ inner =>
    simp only [Stmt.unnumbered, Stmt.mapTokens, forgets.token _ _ token, inner.text forgets,
      Option.map_none]
  | .classDecl _ (some _) _, .subclass token _ superclass inner =>
    simp only [Stmt.unnumbered, Stmt.mapTokens, forgets.token _ _ token, inner.text forgets,
      Option.map_some, superclass.text forgets]

theorem Stmt.AlikeAll.text (forgets : K.Forgets h) {marks : List Bool} {frames : List Frame}
    {ss ss' : List Stmt} (same : Stmt.AlikeAll K marks frames ss ss') :
    Stmt.mapTokensAll h (Stmt.unnumberedAll ss') =
      Stmt.mapTokensAll h (Stmt.unnumberedAll ss) := by
  match ss, same with
  | [], .nil => rfl
  | _ :: _, .cons head tail =>
    simp only [Stmt.unnumberedAll, Stmt.mapTokensAll, head.text forgets, tail.text forgets]

theorem FunctionDecl.Alike.text (forgets : K.Forgets h) {marks : List Bool} {frames : List Frame}
    {f f' : FunctionDecl} (same : f.Alike K marks frames f') :
    f'.unnumbered.mapTokens h = f.unnumbered.mapTokens h := by
  match f, same with
  | ⟨_, _, _⟩, .mk _ token parameters inner =>
    simp only [FunctionDecl.unnumbered, FunctionDecl.mapTokens, forgets.token _ _ token,
      forgets.names parameters, inner.text forgets]

theorem FunctionDecl.AlikeAll.text (forgets : K.Forgets h) {marks : List Bool}
    {frames : List Frame} {fs fs' : List FunctionDecl}
    (same : FunctionDecl.AlikeAll K marks frames fs fs') :
    FunctionDecl.mapTokensAll h (FunctionDecl.unnumberedAll fs') =
      FunctionDecl.mapTokensAll h (FunctionDecl.unnumberedAll fs) := by
  match fs, same with
  | [], .nil => rfl
  | _ :: _, .cons head tail =>
    simp only [FunctionDecl.unnumberedAll, FunctionDecl.mapTokensAll, head.text forgets,
      tail.text forgets]

end

end Text

/-! ## What states that are alike leave -/

/-- Under the guise names are as they are, and declarations that are alike become the same. -/
structure Guise.Erases (K : Guise) (g : FunctionDecl → FunctionDecl) : Prop where
  word : ∀ name, K.word name = name
  code : ∀ {marks : List Bool} {frames : List Frame} {d d' : FunctionDecl},
    d.Alike K marks frames d' → g d' = g d

/-- Where tokens keep all that is to be compared, numbers alone can be different. -/
theorem Guise.Forgets.erases {K : Guise} {h : Token → Token} (forgets : K.Forgets h) :
    K.Erases fun d => d.unnumbered.mapTokens h :=
  ⟨forgets.word, fun same => same.text forgets⟩

theorem Guise.Forgets.erases_unnumbered {K : Guise} (forgets : K.Forgets id) :
    K.Erases FunctionDecl.unnumbered := by
  have erases := forgets.erases
  simp only [FunctionDecl.mapTokens_id] at erases
  exact erases

section Erased

variable {K : Guise} {C : Chart} {g : FunctionDecl → FunctionDecl}

theorem Guise.Erases.rename (erases : K.Erases g) (mark : Bool) : K.rename mark = id := by
  funext name
  cases mark with
  | false => rfl
  | true => exact erases.word name

theorem Bindings.rename_id {α : Type} (b : Bindings α) : b.rename id = b :=
  List.map_id b

theorem Closure.Alike.erased {inner : List Bool} {f f' : Closure} (same : f.Alike K C inner f')
    (erases : K.Erases g) : f'.withCode g = f.withCode g := by
  obtain ⟨marks, frames, -, code⟩ := same.code
  obtain ⟨d, scope, initializer⟩ := f
  obtain ⟨d', scope', initializer'⟩ := f'
  obtain rfl : scope' = scope := same.scope
  obtain rfl : initializer' = initializer := same.isInitializer
  exact congrArg (Closure.mk · scope' initializer') (erases.code code)

/-- Bindings with values that become the same. -/
theorem Bindings.Same.map_eq {α β : Type} {R : α → α → Prop} {b b' : Bindings α} {h : α → β}
    (same : Bindings.Same R b b') (values : ∀ v w, R v w → h w = h v) :
    (b'.map fun p => (p.1, h p.2)) = b.map fun p => (p.1, h p.2) :=
  map_eq_of_forall₂ same fun _ _ ⟨name, value⟩ => Prod.ext name.symm (values _ _ value)

theorem ClassLayer.Alike.erased {l l' : ClassLayer} (same : l.Alike K C l')
    (erases : K.Erases g) : l'.withCode g = l.withCode g := by
  have methods := same.methods.map_eq fun f f' method => method.erased erases
  unfold ClassLayer.withCode
  rw [methods, same.serial, same.name]

theorem Class.Alike.erased {c c' : Class} (same : c.Alike K C c') (erases : K.Erases g) :
    c'.withCode g = c.withCode g := by
  obtain ⟨own, inherited⟩ := List.forall₂_cons.1 same
  have layers := map_eq_of_forall₂ inherited fun _ _ layer => layer.erased erases
  unfold Class.withCode
  rw [layers, own.erased erases]

theorem Value.Alike.erased {v w : Value} (same : v.Alike K C w) (erases : K.Erases g) :
    w.withCode g = v.withCode g := by
  cases same with
  | nil | bool | number | text | native => rfl
  | function serial same => exact congrArg (Value.function serial) (same.erased erases)
  | bound serial same => exact congrArg (Value.bound serial) (same.erased erases)
  | ofClass same => exact congrArg Value.ofClass (same.erased erases)
  | object id same => exact congrArg (fun c => Value.object ⟨id, c⟩) (same.erased erases)

theorem Bindings.Same.erased {b b' : Bindings Value} (same : Bindings.Same (Value.Alike K C) b b')
    (erases : K.Erases g) : b'.withCode g = b.withCode g :=
  same.map_eq fun _ _ value => value.erased erases

/-- States that are alike become the same. -/
theorem Pair.Matched.erased {p : Pair} (m : p.Matched K) (erases : K.Erases g) :
    p.right.withCode g = p.left.withCode g := by
  have scopes : p.right.scopes.cells.map (fun scope =>
      { scope with bindings := scope.bindings.withCode g }) =
      p.left.scopes.cells.map fun scope =>
        { scope with bindings := scope.bindings.withCode g } := by
    refine Array.ext_getElem? fun f => ?_
    rw [Array.getElem?_map, Array.getElem?_map]
    obtain ⟨hl, hr⟩ | ⟨a, b, hl, hr, same⟩ := (m.scopes f).both
    · rw [hl, hr]
    · have bindings := same.bindings
      rw [erases.rename, Bindings.rename_id] at bindings
      rw [hl, hr, Option.map_some, Option.map_some, bindings.erased erases, same.enclosing]
  have fields : p.right.fields.map (Bindings.withCode g) =
      p.left.fields.map (Bindings.withCode g) := by
    apply Array.toList_inj.1
    rw [Array.toList_map, Array.toList_map]
    exact map_eq_of_forall₂ m.fields fun _ _ fields => fields.erased erases
  have effects := m.effects
  unfold State.withCode
  rw [scopes, fields, effects.current, effects.printed, effects.clockReads, effects.nextSerial,
    effects.host]

end Erased

end ClassScript
