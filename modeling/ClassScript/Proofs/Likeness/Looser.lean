import ClassScript.Proofs.Likeness.States

set_option autoImplicit false

/-!
# Looser guises

A guise is looser than another if it changes names in the same way and allows all that the other
does.  What is alike under a guise is alike under every looser one.  As a session goes on, there are
more and more references that may be met, so the guises under which its states are compared get
looser.
-/

namespace ClassScript

namespace Guise

/-- The second guise allows what the first does. -/
structure Looser (K K' : Guise) : Prop where
  word : K'.word = K.word
  allows : ∀ mark name, K.allows mark name → K'.allows mark name
  line : ∀ l l', K.line l l' → K'.line l l'
  link : ∀ id id' d, K.link id id' d → K'.link id id' d

variable {K K' : Guise} {t t' : Token} {mark : Bool} {marks : List Bool} {frames : List Frame}
  {id id' : Nat}

theorem Looser.rename (looser : K.Looser K') : K'.rename = K.rename := by
  unfold Guise.rename
  rw [looser.word]

theorem SameToken.loosen (h : K.SameToken t t') (looser : K.Looser K') : K'.SameToken t t' :=
  ⟨h.kind, h.lexeme, h.literal, looser.line _ _ h.line⟩

theorem SameName.loosen (h : K.SameName mark t t') (looser : K.Looser K') :
    K'.SameName mark t t' where
  kind := h.kind
  lexeme := by rw [looser.rename, h.lexeme]
  literal := h.literal
  line := looser.line _ _ h.line
  allowed := looser.allows _ _ h.allowed

theorem SameReference.loosen (h : K.SameReference marks frames id t id' t')
    (looser : K.Looser K') : K'.SameReference marks frames id t id' t' :=
  ⟨h.name.loosen looser, looser.link _ _ _ h.linked⟩

end Guise

variable {K K' : Guise} {C : Chart}

/-! ## Trees -/

mutual

theorem Expr.Alike.loosen (looser : K.Looser K') {marks : List Bool} {frames : List Frame}
    {e e' : Expr} (h : e.Alike K marks frames e') : e.Alike K' marks frames e' := by
  match e, h with
  | .constant value, .constant _ => exact .constant value
  | .unary .., .unary token inner => exact .unary (token.loosen looser) (inner.loosen looser)
  | .binary .., .binary first token second =>
    exact .binary (first.loosen looser) (token.loosen looser) (second.loosen looser)
  | .grouping _, .grouping inner => exact .grouping (inner.loosen looser)
  | .name .., .name same => exact .name (same.loosen looser)
  | .assign .., .assign same inner => exact .assign (same.loosen looser) (inner.loosen looser)
  | .logical .., .logical first token second =>
    exact .logical (first.loosen looser) (token.loosen looser) (second.loosen looser)
  | .call .., .call first token rest =>
    exact .call (first.loosen looser) (token.loosen looser) (rest.loosen looser)
  | .get .., .get inner token => exact .get (inner.loosen looser) (token.loosen looser)
  | .set .., .set first token second =>
    exact .set (first.loosen looser) (token.loosen looser) (second.loosen looser)
  | .this .., .this same => exact .this (same.loosen looser)
  | .super .., .super same token => exact .super (same.loosen looser) (token.loosen looser)

theorem Expr.AlikeAll.loosen (looser : K.Looser K') {marks : List Bool} {frames : List Frame}
    {es es' : List Expr} (h : Expr.AlikeAll K marks frames es es') :
    Expr.AlikeAll K' marks frames es es' := by
  match es, h with
  | [], .nil => exact .nil
  | _ :: _, .cons head tail => exact .cons (head.loosen looser) (tail.loosen looser)

end

theorem Expr.AlikeOption.loosen (looser : K.Looser K') {marks : List Bool} {frames : List Frame}
    {e e' : Option Expr} (h : Expr.AlikeOption K marks frames e e') :
    Expr.AlikeOption K' marks frames e e' :=
  Option.Rel.imp h fun _ _ same => same.loosen looser

mutual

theorem Stmt.Alike.loosen (looser : K.Looser K') {marks : List Bool} {frames : List Frame}
    {s s' : Stmt} (h : s.Alike K marks frames s') : s.Alike K' marks frames s' := by
  match s, h with
  | .expression _, .expression inner => exact .expression (inner.loosen looser)
  | .print _, .print inner => exact .print (inner.loosen looser)
  | .varDecl .., .varDecl name inner => exact .varDecl (name.loosen looser) (inner.loosen looser)
  | .block _, .block mark inner => exact .block mark (inner.loosen looser)
  | .ifThen .., .ifThen condition first =>
    exact .ifThen (condition.loosen looser) (first.loosen looser)
  | .ifElse .., .ifElse condition first second =>
    exact .ifElse (condition.loosen looser) (first.loosen looser) (second.loosen looser)
  | .whileLoop .., .whileLoop condition body =>
    exact .whileLoop (condition.loosen looser) (body.loosen looser)
  | .funDecl _, .funDecl name inner => exact .funDecl (name.loosen looser) (inner.loosen looser)
  | .returnStmt .., .returnStmt token inner =>
    exact .returnStmt (token.loosen looser) (inner.loosen looser)
  | .classDecl _ none _, .rootClass token name inner =>
    exact .rootClass (token.loosen looser) (name.loosen looser) (inner.loosen looser)
  | .classDecl _ (some _) _, .subclass token name superclass inner =>
    exact .subclass (token.loosen looser) (name.loosen looser) (superclass.loosen looser)
      (inner.loosen looser)

theorem Stmt.AlikeAll.loosen (looser : K.Looser K') {marks : List Bool} {frames : List Frame}
    {ss ss' : List Stmt} (h : Stmt.AlikeAll K marks frames ss ss') :
    Stmt.AlikeAll K' marks frames ss ss' := by
  match ss, h with
  | [], .nil => exact .nil
  | _ :: _, .cons head tail => exact .cons (head.loosen looser) (tail.loosen looser)

theorem FunctionDecl.Alike.loosen (looser : K.Looser K') {marks : List Bool} {frames : List Frame}
    {f f' : FunctionDecl} (h : f.Alike K marks frames f') : f.Alike K' marks frames f' := by
  match f, h with
  | ⟨_, _, _⟩, .mk mark token parameters inner =>
    exact .mk mark (token.loosen looser) (parameters.imp fun _ _ name => name.loosen looser)
      (inner.loosen looser)

theorem FunctionDecl.AlikeAll.loosen (looser : K.Looser K') {marks : List Bool}
    {frames : List Frame} {fs fs' : List FunctionDecl}
    (h : FunctionDecl.AlikeAll K marks frames fs fs') :
    FunctionDecl.AlikeAll K' marks frames fs fs' := by
  match fs, h with
  | [], .nil => exact .nil
  | _ :: _, .cons head tail => exact .cons (head.loosen looser) (tail.loosen looser)

end

/-! ## Values and states -/

theorem Closure.Alike.loosen (looser : K.Looser K') {inner : List Bool} {f f' : Closure}
    (h : f.Alike K C inner f') :
    f.Alike K' C inner f' := by
  obtain ⟨marks, frames, along, same⟩ := h.code
  exact ⟨h.scope, h.isInitializer, marks, frames, along, same.loosen looser⟩

theorem Class.Alike.loosen (looser : K.Looser K') {c c' : Class} (h : c.Alike K C c') :
    c.Alike K' C c' :=
  List.Forall₂.imp
    (fun _ _ l => ⟨l.serial, l.name, l.methods.imp fun _ _ method => method.loosen looser⟩) h

theorem Value.Alike.loosen (looser : K.Looser K') {v w : Value} (h : v.Alike K C w) :
    v.Alike K' C w := by
  cases h with
  | nil => exact .nil
  | bool b => exact .bool b
  | number x => exact .number x
  | text s => exact .text s
  | native f => exact .native f
  | function serial same => exact .function serial (same.loosen looser)
  | bound serial same => exact .bound serial (same.loosen looser)
  | ofClass same => exact .ofClass (same.loosen looser)
  | object id same => exact .object id (same.loosen looser)

/-- The states with other tables of distances. -/
def Pair.withTables (p : Pair) (T T' : Distances) : Pair where
  left := { p.left with distances := T }
  right := { p.right with distances := T' }
  marked := p.marked

/-- States that are alike are alike under a looser guise, once their tables have what is linked. -/
theorem Pair.Matched.loosen {p : Pair} (m : p.Matched K) (looser : K.Looser K') (T T' : Distances)
    (linked : ∀ id id' d, K'.link id id' d → T.get? id = d ∧ T'.get? id' = d) :
    (p.withTables T T').Matched K' where
  scopes f := by
    refine (m.scopes f).imp fun a b alike => ⟨alike.enclosing, ?_⟩
    rw [looser.rename]
    exact alike.bindings.imp fun _ _ same => same.loosen looser
  size := m.size
  outermost := m.outermost
  inhabited := m.inhabited
  plain := m.plain
  fields := m.fields.imp fun _ _ fields => fields.imp fun _ _ same => same.loosen looser
  effects := { m.effects with }
  linked := linked

end ClassScript
