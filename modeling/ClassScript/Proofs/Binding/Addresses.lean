import ClassScript.Proofs.Binding.Reported
import ClassScript.Proofs.Tree.Numbering

set_option autoImplicit false

/-!
# Recorded distances are lexical addresses

The distance that the walk records for a reference is the number of scope boundaries between the
reference and the innermost scope around it in which its name was declared earlier.  References that
are read from tokens are numbered apart, so none of them overwrites the entry of another; whether the
program has faults makes no difference.
-/

namespace ClassScript

open Resolution

/-! ## The entries after the walk -/

/-- The references among occasions. -/
def referencesIn (os : List Occasion) : List Reference :=
  os.filterMap Occasion.reference?

theorem mem_referencesIn {os : List Occasion} {o : Occasion} {reference : Reference} (ho : o ∈ os)
    (refers : o.reference? = some reference) : reference ∈ referencesIn os :=
  List.mem_filterMap.2 ⟨o, ho, refers⟩

theorem get?_note {o : Occasion} {reference : Reference} (refers : o.reference? = some reference)
    (distances : Distances) : (o.note distances).get? reference.id =
      o.address?.or (distances.get? reference.id) := by
  unfold Occasion.note
  rw [refers]
  cases o.address? with
  | none => rfl
  | some distance => exact Distances.get?_insert_self ..

/-- A node that no occasion refers from keeps its entry. -/
theorem get?_foldl_note {os : List Occasion} {id : Nat}
    (other : ∀ reference ∈ referencesIn os, reference.id ≠ id) (distances : Distances) :
    (os.foldl Occasion.note distances).get? id = distances.get? id := by
  induction os generalizing distances with
  | nil => rfl
  | cons o os ih =>
    have later : ∀ reference ∈ referencesIn os, reference.id ≠ id := by
      intro reference mem
      obtain ⟨o', ho', refers⟩ := List.mem_filterMap.1 mem
      exact other reference (mem_referencesIn (List.mem_cons_of_mem _ ho') refers)
    refine (ih later (o.note distances)).trans ?_
    unfold Occasion.note
    split
    · rename_i reference distance refers _
      exact Distances.get?_insert_of_ne _ _
        (other reference (mem_referencesIn List.mem_cons_self refers)).symm
    · rfl

/-- Where references are numbered apart, each of them has its own address afterwards. -/
theorem get?_foldl_note_of_mem {os : List Occasion}
    (apart : ((referencesIn os).map Reference.id).Nodup) {o : Occasion} (ho : o ∈ os)
    {reference : Reference} (refers : o.reference? = some reference) (distances : Distances) :
    (os.foldl Occasion.note distances).get? reference.id =
      o.address?.or (distances.get? reference.id) := by
  obtain ⟨before, after, rfl⟩ := List.append_of_mem ho
  rw [referencesIn, List.filterMap_append, List.filterMap_cons_some refers, List.map_append,
    List.map_cons, List.nodup_middle, List.nodup_cons, List.mem_append, not_or] at apart
  obtain ⟨⟨notBefore, notAfter⟩, -⟩ := apart
  have later : ∀ r ∈ referencesIn after, r.id ≠ reference.id :=
    fun r hr same => notAfter (same ▸ List.mem_map_of_mem hr)
  have earlier : ∀ r ∈ referencesIn before, r.id ≠ reference.id :=
    fun r hr same => notBefore (same ▸ List.mem_map_of_mem hr)
  rw [List.foldl_append, List.foldl_cons, get?_foldl_note later, get?_note refers,
    get?_foldl_note earlier]

/-! ## Every reference is one occasion -/

@[simp] theorem referencesIn_nil : referencesIn [] = [] := rfl

@[simp] theorem referencesIn_append (os os' : List Occasion) :
    referencesIn (os ++ os') = referencesIn os ++ referencesIn os' :=
  List.filterMap_append

mutual

theorem Expr.referencesIn_occasions (around : List LexicalScope) (initializes : Option String)
    (e : Expr) : (referencesIn (e.occasions around initializes)).Perm e.references := by
  match e with
  | .constant _ => exact .nil
  | .unary _ operand => exact Expr.referencesIn_occasions around initializes operand
  | .binary left _ right | .logical left _ right =>
    have first := Expr.referencesIn_occasions around initializes left
    have second := Expr.referencesIn_occasions around initializes right
    simpa [Expr.occasions] using first.append second
  | .grouping inner => exact Expr.referencesIn_occasions around initializes inner
  | .name _ _ | .this _ _ | .super _ _ _ => exact .refl _
  | .assign id target value =>
    have first := Expr.referencesIn_occasions around initializes value
    rw [Expr.occasions, referencesIn_append, Expr.references_assign]
    exact List.perm_append_comm.trans
      (first.append_left (referencesIn [⟨.assigns id target, around, initializes⟩]))
  | .call callee _ arguments =>
    have first := Expr.referencesIn_occasions around initializes callee
    have second := Expr.referencesIn_occasionsAll around initializes arguments
    simpa [Expr.occasions] using first.append second
  | .get object _ => exact Expr.referencesIn_occasions around initializes object
  | .set object _ value =>
    have first := Expr.referencesIn_occasions around initializes object
    have second := Expr.referencesIn_occasions around initializes value
    rw [Expr.occasions, referencesIn_append, Expr.references_set]
    exact List.perm_append_comm.trans (first.append second)

theorem Expr.referencesIn_occasionsAll (around : List LexicalScope) (initializes : Option String)
    (es : List Expr) :
    (referencesIn (Expr.occasionsAll around initializes es)).Perm (Expr.referencesAll es) := by
  match es with
  | [] => exact .nil
  | e :: es =>
    have first := Expr.referencesIn_occasions around initializes e
    have rest := Expr.referencesIn_occasionsAll around initializes es
    simpa [Expr.occasionsAll] using first.append rest

end

theorem Expr.referencesIn_occasionsOption (around : List LexicalScope)
    (initializes : Option String) (e : Option Expr) :
    (referencesIn (Expr.occasionsOption around initializes e)).Perm (Expr.referencesOption e) := by
  cases e with
  | none => exact .nil
  | some e => exact Expr.referencesIn_occasions around initializes e

theorem referencesIn_declares (name : Token) (around : List LexicalScope) (os : List Occasion) :
    referencesIn (⟨.declares name, around, none⟩ :: os) = referencesIn os := rfl

theorem referencesIn_parameters (ps : List Token) (around : List LexicalScope) :
    referencesIn (parameterOccasions ps around) = [] := by
  induction ps generalizing around with
  | nil => rfl
  | cons p ps ih => exact ih (declareIn [p.lexeme] around)

theorem referencesIn_inheritance (around : List LexicalScope) (name : Token) (superclass : Expr) :
    referencesIn (inheritanceOccasions around name superclass) = [] := by
  unfold inheritanceOccasions
  split <;> rfl

mutual

theorem Stmt.referencesIn_occasions (around : List LexicalScope) (s : Stmt) :
    (referencesIn (s.occasions around)).Perm s.references := by
  match s with
  | .expression value | .print value => exact Expr.referencesIn_occasions around none value
  | .varDecl name initializer => exact Expr.referencesIn_occasionsOption _ _ initializer
  | .block body => exact Stmt.referencesIn_occasionsAll _ body
  | .ifThen condition thenBranch =>
    have first := Expr.referencesIn_occasions around none condition
    have second := Stmt.referencesIn_occasions around thenBranch
    simpa [Stmt.occasions] using first.append second
  | .ifElse condition thenBranch elseBranch =>
    have first := Expr.referencesIn_occasions around none condition
    have second := Stmt.referencesIn_occasions around thenBranch
    have third := Stmt.referencesIn_occasions (declareIn thenBranch.declared around) elseBranch
    simpa [Stmt.occasions] using first.append (second.append third)
  | .whileLoop condition body =>
    have first := Expr.referencesIn_occasions around none condition
    have second := Stmt.referencesIn_occasions around body
    simpa [Stmt.occasions] using first.append second
  | .funDecl declaration => exact FunctionDecl.referencesIn_occasions _ declaration
  | .returnStmt keyword value => exact Expr.referencesIn_occasionsOption around none value
  | .classDecl name none methods =>
    have within := FunctionDecl.referencesIn_occasionsAll
      (aroundMethods false methods (declareIn [name.lexeme] around)) methods
    simpa [Stmt.occasions, referencesIn_declares] using within
  | .classDecl name (some e) methods =>
    have first := Expr.referencesIn_occasions (declareIn [name.lexeme] around) none e
    have within := FunctionDecl.referencesIn_occasionsAll
      (aroundMethods true methods (declareIn [name.lexeme] around)) methods
    simpa [Stmt.occasions, referencesIn_declares, referencesIn_inheritance] using first.append within

theorem Stmt.referencesIn_occasionsAll (around : List LexicalScope) (ss : List Stmt) :
    (referencesIn (Stmt.occasionsAll around ss)).Perm (references ss) := by
  match ss with
  | [] => exact .nil
  | s :: ss =>
    have first := Stmt.referencesIn_occasions around s
    have rest := Stmt.referencesIn_occasionsAll (declareIn s.declared around) ss
    simpa [Stmt.occasionsAll] using first.append rest

theorem FunctionDecl.referencesIn_occasions (around : List LexicalScope) (f : FunctionDecl) :
    (referencesIn (f.occasions around)).Perm f.references := by
  match f with
  | ⟨name, parameters, body⟩ =>
    rw [FunctionDecl.occasions, referencesIn_append, referencesIn_parameters, List.nil_append]
    exact Stmt.referencesIn_occasionsAll _ body

theorem FunctionDecl.referencesIn_occasionsAll (around : List LexicalScope)
    (fs : List FunctionDecl) :
    (referencesIn (FunctionDecl.occasionsAll around fs)).Perm (FunctionDecl.referencesAll fs) := by
  match fs with
  | [] => exact .nil
  | f :: fs =>
    have first := FunctionDecl.referencesIn_occasions around f
    have rest := FunctionDecl.referencesIn_occasionsAll around fs
    simpa [FunctionDecl.occasionsAll] using first.append rest

end

/-! ## The open scopes afterwards -/

/-- The scopes are those before, with names that became ready for use in the innermost one. -/
structure Extends (names : List String) (before after : List Frame) : Prop where
  outer : after.tail = before.tail
  opened : after = [] ↔ before = []
  innermost : ∀ name, stageIn after name =
    if before ≠ [] ∧ name ∈ names then some .defined else stageIn before name

namespace Extends

theorem refl (scopes : List Frame) : Extends [] scopes scopes :=
  ⟨rfl, Iff.rfl, fun name => by simp⟩

theorem trans {names names' : List String} {before between after : List Frame}
    (h : Extends names before between) (k : Extends names' between after) :
    Extends (names ++ names') before after := by
  refine ⟨k.outer.trans h.outer, k.opened.trans h.opened, fun name => ?_⟩
  rw [k.innermost, h.innermost]
  by_cases closed : before = []
  · simp [closed, h.opened]
  · by_cases first : name ∈ names <;> simp [closed, first, h.opened]

theorem bind (name : String) (scopes : List Frame) : Extends [name] scopes (bindName name scopes) := by
  cases scopes with
  | nil => exact ⟨rfl, Iff.rfl, fun other => by simp [bindName, declareName, putName, stageIn]⟩
  | cons frame outer =>
    obtain ⟨frame', bound, look⟩ := exists_bindName name frame outer
    rw [bound]
    refine ⟨rfl, by simp, fun other => ?_⟩
    simpa [stageIn] using look other

end Extends

theorem Stmt.extends_after (s : Stmt) (scopes : List Frame) :
    Extends s.declared scopes (s.after scopes) := by
  match s with
  | .varDecl name _ | .classDecl name _ _ => exact .bind name.lexeme scopes
  | .funDecl declaration => exact .bind declaration.name.lexeme scopes
  | .ifThen _ thenBranch => exact Stmt.extends_after thenBranch scopes
  | .ifElse _ thenBranch elseBranch =>
    have first := Stmt.extends_after thenBranch scopes
    exact first.trans (Stmt.extends_after elseBranch (thenBranch.after scopes))
  | .whileLoop _ body => exact Stmt.extends_after body scopes
  | .expression _ | .print _ | .block _ | .returnStmt .. => exact .refl scopes

/-! ## Programs -/

/-- For a program that was read from tokens, faulty or not, every reference is met on one occasion,
whose lexical address its entry is, and no other entry changes.  Moreover, after every expression the
open scopes are those before it, and after every statement they have just its names more. -/
theorem resolve_records_addresses {tokens : List Token} {firstId : Nat} {program : List Stmt}
    (parsed : (parse tokens firstId).outcome = .program program) (distances : Distances) :
    (referencesIn (occasions program)).Perm (references program) ∧
    (∀ o ∈ occasions program, ∀ reference, o.reference? = some reference →
      (resolve program distances).1.get? reference.id =
        o.address?.or (distances.get? reference.id)) ∧
    (∀ id, (∀ reference ∈ references program, reference.id ≠ id) →
      (resolve program distances).1.get? id = distances.get? id) ∧
    ((∀ id, firstId ≤ id → distances.get? id = none) →
      ∀ o ∈ occasions program, ∀ reference, o.reference? = some reference →
        (resolve program distances).1.get? reference.id = o.address?) ∧
    (∀ position (e : Expr) r, (e.resolve position r).scopes = r.scopes) ∧
    ∀ position (s : Stmt) r, Extends s.declared r.scopes (s.resolve position r).scopes := by
  have recorded : (resolve program distances).1 =
      (occasions program).foldl Occasion.note distances :=
    (resolve_walks program distances).recorded
  have met : (referencesIn (occasions program)).Perm (references program) :=
    Stmt.referencesIn_occasionsAll [] program
  obtain ⟨numbered, -⟩ :=
    (parse_grounded Token.grounds_any (fun _ _ => trivial) firstId).2 program parsed
  have apart : ((referencesIn (occasions program)).map Reference.id).Nodup :=
    (met.map Reference.id).nodup_iff.2 numbered.apart
  have entry : ∀ o ∈ occasions program, ∀ reference, o.reference? = some reference →
      (resolve program distances).1.get? reference.id =
        o.address?.or (distances.get? reference.id) := by
    intro o ho reference refers
    have noted := get?_foldl_note_of_mem apart ho refers distances
    rwa [recorded]
  refine ⟨met, entry, fun id other => ?_, fun fresh o ho reference refers => ?_,
    Expr.scopes_resolve, fun position s r => ?_⟩
  · have kept := get?_foldl_note (fun r hr => other r (met.mem_iff.1 hr)) distances
    rwa [recorded]
  · have mem : reference ∈ references program := met.mem_iff.1 (mem_referencesIn ho refers)
    rw [entry o ho reference refers, fresh _ (numbered.within reference mem).1, Option.or_none]
  · rw [Stmt.scopes_resolve]
    exact s.extends_after r.scopes

/-- The tokens of a block that reads its variable from a block inside it. -/
def nestedRead : List Token :=
  [⟨.leftBrace, "\x7b", none, 1⟩, ⟨.kwVar, "var", none, 1⟩, ⟨.identifier, "a", none, 1⟩,
   ⟨.semicolon, ";", none, 1⟩, ⟨.leftBrace, "\x7b", none, 1⟩, ⟨.identifier, "a", none, 1⟩,
   ⟨.semicolon, ";", none, 1⟩, ⟨.rightBrace, "\x7d", none, 1⟩, ⟨.rightBrace, "\x7d", none, 1⟩,
   .closing 1]

theorem resolve_records_nestedRead : ∃ program, (parse nestedRead 0).outcome = .program program ∧
    (resolve program .empty).1.get? 0 = some 1 := by
  have parsed : (parse nestedRead 0).outcome = .program
      [.block [.varDecl ⟨.identifier, "a", none, 1⟩ none,
        .block [.expression (.name 0 ⟨.identifier, "a", none, 1⟩)]]] := by
    cbv
  obtain ⟨-, -, -, recorded, -⟩ := resolve_records_addresses parsed .empty
  refine ⟨_, parsed, ?_⟩
  exact recorded (fun _ _ => rfl) _ (List.mem_cons_of_mem _ List.mem_cons_self) _ rfl

end ClassScript
