import ClassScript.Proofs.Likeness.Trees
import ClassScript.Proofs.Tree.Retokened

set_option autoImplicit false

/-!
# Trees with the same text

Trees that are the same but for the numbers of their nodes, and tokens that were exchanged for
similar ones, are alike.  What has to be known of the numbers is whether references are linked that
the binding walk meets in the same place.
-/

namespace ClassScript

/-! ## What the text decides -/

/-- The scopes after a statement do not depend on numbers. -/
theorem Stmt.after_unnumbered (s : Stmt) (frames : List Frame) :
    s.unnumbered.after frames = s.after frames := by
  match s with
  | .expression _ | .print _ | .varDecl .. | .block _ | .returnStmt .. | .classDecl .. => rfl
  | .funDecl ⟨_, _, _⟩ => rfl
  | .ifThen _ first => exact Stmt.after_unnumbered first frames
  | .ifElse _ first second =>
    rw [Stmt.unnumbered, Stmt.after, Stmt.after, Stmt.after_unnumbered first,
      Stmt.after_unnumbered second]
  | .whileLoop _ body => exact Stmt.after_unnumbered body frames

/-- Nor do they depend on tokens but for their words. -/
theorem Stmt.after_mapTokens {f : Token → Token} (words : ∀ t, (f t).lexeme = t.lexeme) (s : Stmt)
    (frames : List Frame) : (s.mapTokens f).after frames = s.after frames := by
  match s with
  | .expression _ | .print _ | .block _ | .returnStmt .. => rfl
  | .varDecl name _ | .classDecl name _ _ =>
    rw [Stmt.mapTokens, Stmt.after, Stmt.after, words]
  | .funDecl ⟨name, _, _⟩ =>
    rw [Stmt.mapTokens, FunctionDecl.mapTokens, Stmt.after, Stmt.after, words]
  | .ifThen _ first => exact Stmt.after_mapTokens words first frames
  | .ifElse _ first second =>
    rw [Stmt.mapTokens, Stmt.after, Stmt.after, Stmt.after_mapTokens words first,
      Stmt.after_mapTokens words second]
  | .whileLoop _ body => exact Stmt.after_mapTokens words body frames

/-- Where no scope is marked, none is marked at any distance. -/
theorem markAt_plain {marks : List Bool} (plain : ∀ mark ∈ marks, mark = false)
    (distance : Option Nat) : markAt marks distance = false := by
  cases distance with
  | none => rfl
  | some d =>
    change marks.getD d false = false
    rw [List.getD_eq_getElem?_getD]
    cases found : marks[d]? with
    | none => rfl
    | some mark => exact plain mark (List.mem_of_getElem? found)

theorem headD_plain {marks : List Bool} (plain : ∀ mark ∈ marks, mark = false) :
    marks.headD false = false := by
  cases marks with
  | nil => rfl
  | cons mark _ => exact plain mark (List.mem_cons_self ..)

/-! ## Trees -/

/-- Under the guise, tokens go with those that they are exchanged for, no name is changed, and
references are linked that satisfy the one condition and the other with the same distance. -/
structure Guise.Retells (K : Guise) (f : Token → Token) (A B : Nat → Option Nat → Prop) : Prop where
  token : ∀ t, K.SameToken t (f t)
  whole : ∀ name, K.allows false name
  link : ∀ id id' d, A id d → B id' d → K.link id id' d

/-- The number and the distance of a reference in a place satisfy a condition. -/
def Reference.Placed (A : Nat → Option Nat → Prop) (frames : List Frame) (r : Reference) : Prop :=
  A r.id (distance? r.token.lexeme frames)

/-- The number and the distance of a reference where the walk meets it satisfy a condition. -/
def Visit.Placed (A : Nat → Option Nat → Prop) (v : Visit) : Prop :=
  v.reference.Placed A v.scopes

theorem placed_of_visitsAt {A : Nat → Option Nat → Prop} {sites : List Site} {frames : List Frame}
    {rs : List Reference} (h : ∀ v ∈ visitsAt sites frames rs, v.Placed A) :
    ∀ r ∈ rs, r.Placed A frames :=
  fun _ hr => h _ (mem_visitsAt_of_mem hr)

section Retells

variable {K : Guise} {f : Token → Token} {A B : Nat → Option Nat → Prop} {t : Token}
  {marks : List Bool} {frames : List Frame} {sites sites' : List Site} {id id' : Nat}

namespace Guise.Retells

variable (retells : K.Retells f A B) (plain : ∀ mark ∈ marks, mark = false)
include retells

theorem words (t : Token) : (f t).lexeme = t.lexeme := (retells.token t).lexeme

theorem name (t : Token) : K.SameName false t (f t) :=
  have same := retells.token t
  ⟨same.kind, same.lexeme, same.literal, same.line, retells.whole _⟩

include plain

theorem declared (t : Token) : K.SameName (marks.headD false) t (f t) := by
  rw [headD_plain plain]
  exact retells.name t

theorem reference {kind : ReferenceKind} (left : (Reference.mk kind id t).Placed A frames)
    (right : (Reference.mk kind id' (f t)).Placed B frames) :
    K.SameReference marks frames id t id' (f t) := by
  refine ⟨?_, retells.link _ _ _ left ?_⟩
  · rw [markAt_plain plain]
    exact retells.name t
  · rw [← retells.words t]
    exact right

end Guise.Retells

mutual

/-- Expressions with the same text are alike. -/
theorem Expr.Alike.of_text (retells : K.Retells f A B) {marks : List Bool} {frames : List Frame}
    (plain : ∀ mark ∈ marks, mark = false) {e e' : Expr}
    (text : e'.unnumbered = e.unnumbered.mapTokens f)
    (left : ∀ r ∈ e.references, r.Placed A frames)
    (right : ∀ r ∈ e'.references, r.Placed B frames) : e.Alike K marks frames e' := by
  match e with
  | .constant value =>
    cases e' <;>
      simp only [Expr.unnumbered, Expr.mapTokens, reduceCtorEq, Expr.constant.injEq] at text
    subst text
    exact .constant _
  | .unary operator operand =>
    cases e' <;> simp only [Expr.unnumbered, Expr.mapTokens, reduceCtorEq, Expr.unary.injEq] at text
    obtain ⟨rfl, inner⟩ := text
    exact .unary (retells.token _) (.of_text retells plain inner left right)
  | .binary first operator second =>
    cases e' <;>
      simp only [Expr.unnumbered, Expr.mapTokens, reduceCtorEq, Expr.binary.injEq] at text
    obtain ⟨one, rfl, two⟩ := text
    simp only [Expr.references_binary, List.forall_mem_append] at left right
    exact .binary (.of_text retells plain one left.1 right.1) (retells.token _)
      (.of_text retells plain two left.2 right.2)
  | .grouping inner =>
    cases e' <;>
      simp only [Expr.unnumbered, Expr.mapTokens, reduceCtorEq, Expr.grouping.injEq] at text
    exact .grouping (.of_text retells plain text left right)
  | .name id t =>
    cases e' <;> simp only [Expr.unnumbered, Expr.mapTokens, reduceCtorEq, Expr.name.injEq] at text
    obtain ⟨-, rfl⟩ := text
    simp only [Expr.references_name, List.forall_mem_singleton] at left right
    exact .name (retells.reference plain left right)
  | .assign id t value =>
    cases e' <;>
      simp only [Expr.unnumbered, Expr.mapTokens, reduceCtorEq, Expr.assign.injEq] at text
    obtain ⟨-, rfl, inner⟩ := text
    simp only [Expr.references_assign, List.forall_mem_cons] at left right
    exact .assign (retells.reference plain left.1 right.1)
      (.of_text retells plain inner left.2 right.2)
  | .logical first operator second =>
    cases e' <;>
      simp only [Expr.unnumbered, Expr.mapTokens, reduceCtorEq, Expr.logical.injEq] at text
    obtain ⟨one, rfl, two⟩ := text
    simp only [Expr.references_logical, List.forall_mem_append] at left right
    exact .logical (.of_text retells plain one left.1 right.1) (retells.token _)
      (.of_text retells plain two left.2 right.2)
  | .call callee closing arguments =>
    cases e' <;> simp only [Expr.unnumbered, Expr.mapTokens, reduceCtorEq, Expr.call.injEq] at text
    obtain ⟨one, rfl, rest⟩ := text
    simp only [Expr.references_call, List.forall_mem_append] at left right
    exact .call (.of_text retells plain one left.1 right.1) (retells.token _)
      (.of_text retells plain rest left.2 right.2)
  | .get object property =>
    cases e' <;> simp only [Expr.unnumbered, Expr.mapTokens, reduceCtorEq, Expr.get.injEq] at text
    obtain ⟨inner, rfl⟩ := text
    exact .get (.of_text retells plain inner left right) (retells.token _)
  | .set object property value =>
    cases e' <;> simp only [Expr.unnumbered, Expr.mapTokens, reduceCtorEq, Expr.set.injEq] at text
    obtain ⟨one, rfl, two⟩ := text
    simp only [Expr.references_set, List.forall_mem_append] at left right
    exact .set (.of_text retells plain one left.1 right.1) (retells.token _)
      (.of_text retells plain two left.2 right.2)
  | .this id t =>
    cases e' <;> simp only [Expr.unnumbered, Expr.mapTokens, reduceCtorEq, Expr.this.injEq] at text
    obtain ⟨-, rfl⟩ := text
    simp only [Expr.references_this, List.forall_mem_singleton] at left right
    exact .this (retells.reference plain left right)
  | .super id t method =>
    cases e' <;> simp only [Expr.unnumbered, Expr.mapTokens, reduceCtorEq, Expr.super.injEq] at text
    obtain ⟨-, rfl, rfl⟩ := text
    simp only [Expr.references_super, List.forall_mem_singleton] at left right
    exact .super (retells.reference plain left right) (retells.token _)

theorem Expr.AlikeAll.of_text (retells : K.Retells f A B) {marks : List Bool}
    {frames : List Frame} (plain : ∀ mark ∈ marks, mark = false) {es es' : List Expr}
    (text : Expr.unnumberedAll es' = Expr.mapTokensAll f (Expr.unnumberedAll es))
    (left : ∀ r ∈ Expr.referencesAll es, r.Placed A frames)
    (right : ∀ r ∈ Expr.referencesAll es', r.Placed B frames) :
    Expr.AlikeAll K marks frames es es' := by
  match es with
  | [] =>
    cases es' with
    | nil => exact .nil
    | cons => simp only [Expr.unnumberedAll, Expr.mapTokensAll, reduceCtorEq] at text
  | e :: es =>
    cases es' <;>
      simp only [Expr.unnumberedAll, Expr.mapTokensAll, reduceCtorEq, List.cons.injEq] at text
    simp only [Expr.referencesAll_cons, List.forall_mem_append] at left right
    exact .cons (.of_text retells plain text.1 left.1 right.1)
      (.of_text retells plain text.2 left.2 right.2)

end

theorem Expr.AlikeOption.of_text (retells : K.Retells f A B)
    (plain : ∀ mark ∈ marks, mark = false) {e e' : Option Expr}
    (text : e'.map Expr.unnumbered = (e.map Expr.unnumbered).map (Expr.mapTokens f))
    (left : ∀ r ∈ Expr.referencesOption e, r.Placed A frames)
    (right : ∀ r ∈ Expr.referencesOption e', r.Placed B frames) :
    Expr.AlikeOption K marks frames e e' := by
  cases e <;> cases e' <;>
    simp only [Option.map_none, Option.map_some, reduceCtorEq, Option.some.injEq] at text
  · exact .none
  · exact .some (.of_text retells plain text left right)

mutual

/-- Statements with the same text are alike. -/
theorem Stmt.Alike.of_text (retells : K.Retells f A B) {marks : List Bool} {frames : List Frame}
    {sites sites' : List Site} (plain : ∀ mark ∈ marks, mark = false) {s s' : Stmt}
    (text : s'.unnumbered = s.unnumbered.mapTokens f)
    (left : ∀ v ∈ s.visits sites frames, v.Placed A)
    (right : ∀ v ∈ s'.visits sites' frames, v.Placed B) : s.Alike K marks frames s' := by
  match s with
  | .expression value =>
    cases s' <;>
      simp only [Stmt.unnumbered, Stmt.mapTokens, reduceCtorEq, Stmt.expression.injEq] at text
    exact .expression
      (.of_text retells plain text (placed_of_visitsAt left) (placed_of_visitsAt right))
  | .print value =>
    cases s' <;> simp only [Stmt.unnumbered, Stmt.mapTokens, reduceCtorEq, Stmt.print.injEq] at text
    exact .print
      (.of_text retells plain text (placed_of_visitsAt left) (placed_of_visitsAt right))
  | .varDecl name initializer =>
    cases s' <;>
      simp only [Stmt.unnumbered, Stmt.mapTokens, reduceCtorEq, Stmt.varDecl.injEq] at text
    obtain ⟨rfl, inner⟩ := text
    rw [Stmt.visits, retells.words] at right
    exact .varDecl (retells.declared plain _)
      (.of_text retells plain inner (placed_of_visitsAt left) (placed_of_visitsAt right))
  | .block body =>
    cases s' <;> simp only [Stmt.unnumbered, Stmt.mapTokens, reduceCtorEq, Stmt.block.injEq] at text
    exact .block false (.of_text retells (List.forall_mem_cons.2 ⟨rfl, plain⟩) text left right)
  | .ifThen condition first =>
    cases s' <;>
      simp only [Stmt.unnumbered, Stmt.mapTokens, reduceCtorEq, Stmt.ifThen.injEq] at text
    simp only [Stmt.visits, List.forall_mem_append] at left right
    exact .ifThen (.of_text retells plain text.1 (placed_of_visitsAt left.1)
      (placed_of_visitsAt right.1)) (.of_text retells plain text.2 left.2 right.2)
  | .ifElse condition first second =>
    cases s' <;>
      simp only [Stmt.unnumbered, Stmt.mapTokens, reduceCtorEq, Stmt.ifElse.injEq] at text
    obtain ⟨one, two, three⟩ := text
    have after : ∀ frames, _ := fun frames => congrArg (Stmt.after · frames) two
    simp only [Stmt.after_unnumbered, Stmt.after_mapTokens retells.words] at after
    simp only [Stmt.visits, List.forall_mem_append, after] at left right
    exact .ifElse (.of_text retells plain one (placed_of_visitsAt left.1.1)
      (placed_of_visitsAt right.1.1)) (.of_text retells plain two left.1.2 right.1.2)
      (.of_text retells plain three left.2 right.2)
  | .whileLoop condition body =>
    cases s' <;>
      simp only [Stmt.unnumbered, Stmt.mapTokens, reduceCtorEq, Stmt.whileLoop.injEq] at text
    simp only [Stmt.visits, List.forall_mem_append] at left right
    exact .whileLoop (.of_text retells plain text.1 (placed_of_visitsAt left.1)
      (placed_of_visitsAt right.1)) (.of_text retells plain text.2 left.2 right.2)
  | .funDecl ⟨name, parameters, body⟩ =>
    cases s' <;>
      simp only [Stmt.unnumbered, Stmt.mapTokens, reduceCtorEq, Stmt.funDecl.injEq] at text
    rename_i declaration'
    obtain ⟨name', parameters', body'⟩ := declaration'
    have same : name' = f name := congrArg FunctionDecl.name text
    subst same
    rw [Stmt.visits, retells.words] at right
    exact .funDecl (retells.declared plain _) (.of_text retells plain text left right)
  | .returnStmt keyword value =>
    cases s' <;>
      simp only [Stmt.unnumbered, Stmt.mapTokens, reduceCtorEq, Stmt.returnStmt.injEq] at text
    obtain ⟨rfl, inner⟩ := text
    exact .returnStmt (retells.token _)
      (.of_text retells plain inner (placed_of_visitsAt left) (placed_of_visitsAt right))
  | .classDecl name none methods =>
    cases s' <;>
      simp only [Stmt.unnumbered, Stmt.mapTokens, reduceCtorEq, Stmt.classDecl.injEq,
        Option.map_none, Option.map_eq_none_iff] at text
    obtain ⟨rfl, rfl, rest⟩ := text
    simp only [Stmt.visits, retells.words] at right
    exact .rootClass (retells.token _) (retells.declared plain _)
      (.of_text retells (List.forall_mem_cons.2 ⟨rfl, plain⟩) rest left right)
  | .classDecl name (some e) methods =>
    cases s' <;>
      simp only [Stmt.unnumbered, Stmt.mapTokens, reduceCtorEq, Stmt.classDecl.injEq,
        Option.map_some, Option.map_eq_some_iff] at text
    obtain ⟨rfl, ⟨e', rfl, one⟩, rest⟩ := text
    simp only [Stmt.visits, retells.words, List.forall_mem_append] at left right
    exact .subclass (retells.token _) (retells.declared plain _)
      (.of_text retells plain one (placed_of_visitsAt left.1) (placed_of_visitsAt right.1))
      (.of_text retells (List.forall_mem_cons.2 ⟨rfl, List.forall_mem_cons.2 ⟨rfl, plain⟩⟩) rest
        left.2 right.2)

theorem Stmt.AlikeAll.of_text (retells : K.Retells f A B) {marks : List Bool}
    {frames : List Frame} {sites sites' : List Site} (plain : ∀ mark ∈ marks, mark = false)
    {ss ss' : List Stmt}
    (text : Stmt.unnumberedAll ss' = Stmt.mapTokensAll f (Stmt.unnumberedAll ss))
    (left : ∀ v ∈ Stmt.visitsAll sites frames ss, v.Placed A)
    (right : ∀ v ∈ Stmt.visitsAll sites' frames ss', v.Placed B) :
    Stmt.AlikeAll K marks frames ss ss' := by
  match ss with
  | [] =>
    cases ss' with
    | nil => exact .nil
    | cons => simp only [Stmt.unnumberedAll, Stmt.mapTokensAll, reduceCtorEq] at text
  | s :: ss =>
    cases ss' <;>
      simp only [Stmt.unnumberedAll, Stmt.mapTokensAll, reduceCtorEq, List.cons.injEq] at text
    have after : ∀ frames, _ := fun frames => congrArg (Stmt.after · frames) text.1
    simp only [Stmt.after_unnumbered, Stmt.after_mapTokens retells.words] at after
    simp only [Stmt.visitsAll, List.forall_mem_append, after] at left right
    exact .cons (.of_text retells plain text.1 left.1 right.1)
      (.of_text retells plain text.2 left.2 right.2)

theorem FunctionDecl.Alike.of_text (retells : K.Retells f A B) {marks : List Bool}
    {frames : List Frame} {sites sites' : List Site} (plain : ∀ mark ∈ marks, mark = false)
    {d d' : FunctionDecl} (text : d'.unnumbered = d.unnumbered.mapTokens f)
    (left : ∀ v ∈ d.visits sites frames, v.Placed A)
    (right : ∀ v ∈ d'.visits sites' frames, v.Placed B) : d.Alike K marks frames d' := by
  match d with
  | ⟨name, parameters, body⟩ =>
    obtain ⟨name', parameters', body'⟩ := d'
    simp only [FunctionDecl.unnumbered, FunctionDecl.mapTokens, FunctionDecl.mk.injEq] at text
    obtain ⟨rfl, rfl, inner⟩ := text
    have words : (parameters.map f).map Token.lexeme = parameters.map Token.lexeme := by
      rw [List.map_map]
      exact List.map_congr_left fun t _ => retells.words t
    rw [FunctionDecl.visits, words] at right
    exact .mk false (retells.token _)
      (List.forall₂_map_right_iff.2 (List.forall₂_same.2 fun t _ => retells.name t))
      (.of_text retells (List.forall_mem_cons.2 ⟨rfl, plain⟩) inner left right)

theorem FunctionDecl.AlikeAll.of_text (retells : K.Retells f A B) {marks : List Bool}
    {frames : List Frame} {sites sites' : List Site} (plain : ∀ mark ∈ marks, mark = false)
    {ds ds' : List FunctionDecl}
    (text : FunctionDecl.unnumberedAll ds' =
      FunctionDecl.mapTokensAll f (FunctionDecl.unnumberedAll ds))
    (left : ∀ v ∈ FunctionDecl.visitsAll sites frames ds, v.Placed A)
    (right : ∀ v ∈ FunctionDecl.visitsAll sites' frames ds', v.Placed B) :
    FunctionDecl.AlikeAll K marks frames ds ds' := by
  match ds with
  | [] =>
    cases ds' with
    | nil => exact .nil
    | cons =>
      simp only [FunctionDecl.unnumberedAll, FunctionDecl.mapTokensAll, reduceCtorEq] at text
  | d :: ds =>
    cases ds' <;>
      simp only [FunctionDecl.unnumberedAll, FunctionDecl.mapTokensAll, reduceCtorEq,
        List.cons.injEq] at text
    simp only [FunctionDecl.visitsAll, List.forall_mem_append] at left right
    exact .cons (.of_text retells plain text.1 left.1 right.1)
      (.of_text retells plain text.2 left.2 right.2)

end

end Retells

end ClassScript
