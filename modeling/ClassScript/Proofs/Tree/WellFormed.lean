import ClassScript.Proofs.Token.Spelling
import ClassScript.Tree.Walk

set_option autoImplicit false

/-!
# Trees as they are read

What can be said of every tree that the parser makes from the tokens of a source: its references are
numbered apart from each other, the words it declares and refers to are spelled as their places ask,
and a declaration stands only where statements are listed.
-/

namespace ClassScript

/-! ## References -/

/-- The references of an expression, in reading order. -/
def Expr.references (e : Expr) : List Reference :=
  e.walk.filterMap Expr.reference?

/-- The references of expressions, in reading order. -/
def Expr.referencesAll (es : List Expr) : List Reference :=
  (Expr.walkAll es).filterMap Expr.reference?

/-- The references of a part that may be absent. -/
def Expr.referencesOption (e : Option Expr) : List Reference :=
  (Expr.walkOption e).filterMap Expr.reference?

/-- The references of a statement, in reading order. -/
def Stmt.references (s : Stmt) : List Reference :=
  s.walk.filterMap Expr.reference?

/-- The references of a body, in reading order. -/
def FunctionDecl.references (f : FunctionDecl) : List Reference :=
  f.walk.filterMap Expr.reference?

/-- The references of bodies, in reading order. -/
def FunctionDecl.referencesAll (fs : List FunctionDecl) : List Reference :=
  (FunctionDecl.walkAll fs).filterMap Expr.reference?

namespace Expr

variable (e l r : Expr) (es : List Expr) (t u : Token) (id : Nat)

@[simp] theorem references_constant (value : Constant) : (constant value).references = [] := rfl

@[simp] theorem references_unary : (unary t e).references = e.references := rfl

@[simp] theorem references_binary :
    (binary l t r).references = l.references ++ r.references := by
  change List.filterMap reference? (l.walk ++ r.walk) = _
  exact List.filterMap_append

@[simp] theorem references_grouping : (grouping e).references = e.references := rfl

@[simp] theorem references_name : (name id t).references = [⟨.name, id, t⟩] := rfl

@[simp] theorem references_assign :
    (assign id t e).references = ⟨.assign, id, t⟩ :: e.references := rfl

@[simp] theorem references_logical :
    (logical l t r).references = l.references ++ r.references := by
  change List.filterMap reference? (l.walk ++ r.walk) = _
  exact List.filterMap_append

@[simp] theorem references_call :
    (call e t es).references = e.references ++ referencesAll es := by
  change List.filterMap reference? (e.walk ++ walkAll es) = _
  exact List.filterMap_append

@[simp] theorem references_get : (get e t).references = e.references := rfl

@[simp] theorem references_set : (set l t r).references = l.references ++ r.references := by
  change List.filterMap reference? (l.walk ++ r.walk) = _
  exact List.filterMap_append

@[simp] theorem references_this : (this id t).references = [⟨.this, id, t⟩] := rfl

@[simp] theorem references_super : (super id t u).references = [⟨.super, id, t⟩] := rfl

@[simp] theorem referencesAll_nil : referencesAll [] = [] := rfl

@[simp] theorem referencesAll_cons :
    referencesAll (e :: es) = e.references ++ referencesAll es := by
  change List.filterMap reference? (e.walk ++ walkAll es) = _
  exact List.filterMap_append

@[simp] theorem referencesOption_none : referencesOption none = [] := rfl

@[simp] theorem referencesOption_some : referencesOption (some e) = e.references := rfl

/-- The reference that an expression makes itself is among its references. -/
theorem mem_references_of_reference? {e : Expr} {ref : Reference} (h : e.reference? = some ref) :
    ref ∈ e.references := by
  cases e <;> simp only [reference?, Option.some.injEq, reduceCtorEq] at h <;> subst h <;> simp

end Expr

namespace Stmt

variable (e : Expr) (o : Option Expr) (s u : Stmt) (ss : List Stmt) (t : Token)

@[simp] theorem references_expression : (expression e).references = e.references := rfl

@[simp] theorem references_print : (print e).references = e.references := rfl

@[simp] theorem references_varDecl : (varDecl t o).references = Expr.referencesOption o := rfl

@[simp] theorem references_block : (block ss).references = ClassScript.references ss := rfl

@[simp] theorem references_ifThen :
    (ifThen e s).references = e.references ++ s.references := by
  change List.filterMap Expr.reference? (e.walk ++ s.walk) = _
  exact List.filterMap_append

@[simp] theorem references_ifElse :
    (ifElse e s u).references = e.references ++ s.references ++ u.references := by
  change List.filterMap Expr.reference? (e.walk ++ s.walk ++ u.walk) = _
  rw [List.filterMap_append, List.filterMap_append]
  rfl

@[simp] theorem references_whileLoop :
    (whileLoop e s).references = e.references ++ s.references := by
  change List.filterMap Expr.reference? (e.walk ++ s.walk) = _
  exact List.filterMap_append

@[simp] theorem references_funDecl (f : FunctionDecl) :
    (funDecl f).references = f.references := rfl

@[simp] theorem references_returnStmt :
    (returnStmt t o).references = Expr.referencesOption o := rfl

@[simp] theorem references_classDecl (fs : List FunctionDecl) :
    (classDecl t o fs).references =
      Expr.referencesOption o ++ FunctionDecl.referencesAll fs := by
  change List.filterMap Expr.reference? (Expr.walkOption o ++ FunctionDecl.walkAll fs) = _
  exact List.filterMap_append

@[simp] theorem referencesAll_nil : ClassScript.references [] = [] := rfl

@[simp] theorem referencesAll_cons :
    ClassScript.references (s :: ss) = s.references ++ ClassScript.references ss := by
  change List.filterMap Expr.reference? (s.walk ++ walkAll ss) = _
  exact List.filterMap_append

end Stmt

namespace FunctionDecl

@[simp] theorem references_mk (name : Token) (parameters : List Token) (body : List Stmt) :
    (mk name parameters body).references = ClassScript.references body := rfl

@[simp] theorem referencesAll_nil : referencesAll [] = [] := rfl

@[simp] theorem referencesAll_cons (f : FunctionDecl) (fs : List FunctionDecl) :
    referencesAll (f :: fs) = f.references ++ referencesAll fs := by
  change List.filterMap Expr.reference? (f.walk ++ walkAll fs) = _
  exact List.filterMap_append

end FunctionDecl

/-! ## Numbers and words of references -/

/-- The word that a reference refers by fits its kind. -/
def Reference.Spelled (r : Reference) : Prop :=
  match r.kind with
  | .name | .assign => IsName r.token.lexeme
  | .this => r.token.lexeme = "this"
  | .super => r.token.lexeme = "super"

/-- The references have different numbers within the bounds, the upper one excluded, and each of them
is as `P` says. -/
structure NumberedBy (P : Reference → Prop) (lo hi : Nat) (rs : List Reference) : Prop where
  apart : (rs.map Reference.id).Nodup
  within : ∀ r ∈ rs, lo ≤ r.id ∧ r.id < hi
  spelled : ∀ r ∈ rs, P r

/-- The references are numbered, and their words fit their kinds. -/
abbrev Numbered : Nat → Nat → List Reference → Prop :=
  NumberedBy Reference.Spelled

namespace NumberedBy

variable {P : Reference → Prop} {lo mid mid' hi : Nat} {rs us : List Reference}

theorem nil : NumberedBy P lo hi [] :=
  ⟨by simp, by simp, by simp⟩

theorem single {r : Reference} (hlo : lo ≤ r.id) (hhi : r.id < hi) (h : P r) :
    NumberedBy P lo hi [r] :=
  ⟨by simp, by simp [hlo, hhi], by simpa using h⟩

theorem mono (h : NumberedBy P mid mid' rs) (hlo : lo ≤ mid) (hhi : mid' ≤ hi) :
    NumberedBy P lo hi rs := by
  refine ⟨h.apart, fun r hr => ?_, h.spelled⟩
  have := h.within r hr
  omega

/-- References that were numbered later are apart from those numbered earlier. -/
theorem append (h : NumberedBy P lo mid rs) (k : NumberedBy P mid' hi us) (hlo : lo ≤ mid')
    (hmid : mid ≤ mid') (hhi : mid ≤ hi) : NumberedBy P lo hi (rs ++ us) := by
  refine ⟨?_, fun r hr => ?_, fun r hr => ?_⟩
  · rw [List.map_append]
    refine h.apart.append k.apart fun id hid hid' => ?_
    obtain ⟨r, hr, rfl⟩ := List.mem_map.1 hid
    obtain ⟨u, hu, same⟩ := List.mem_map.1 hid'
    have := h.within r hr
    have := k.within u hu
    omega
  · rcases List.mem_append.1 hr with hr | hr
    · have := h.within r hr
      omega
    · have := k.within r hr
      omega
  · exact (List.mem_append.1 hr).elim (h.spelled r) (k.spelled r)

theorem perm (h : NumberedBy P lo hi rs) (p : rs.Perm us) : NumberedBy P lo hi us :=
  ⟨(p.map _).nodup_iff.1 h.apart, fun r hr => h.within r (p.mem_iff.2 hr),
    fun r hr => h.spelled r (p.mem_iff.2 hr)⟩

end NumberedBy

/-! ## Shapes of statements -/

/-- The name that a statement declares in the scope it stands in. -/
def Stmt.declares? : Stmt → Option Token
  | .varDecl name _ => some name
  | .funDecl declaration => some declaration.name
  | .classDecl name _ _ => some name
  | _ => none

mutual

/-- Declared names are as `N` says, branches and loop bodies declare nothing, and a superclass is given
by name. -/
def Stmt.FormedBy (N : Token → Prop) : Stmt → Prop
  | .expression _ => True
  | .print _ => True
  | .varDecl name _ => N name
  | .block body => Stmt.FormedByAll N body
  | .ifThen _ thenBranch => thenBranch.FormedBy N ∧ thenBranch.declares? = none
  | .ifElse _ thenBranch elseBranch =>
    (thenBranch.FormedBy N ∧ thenBranch.declares? = none) ∧
    elseBranch.FormedBy N ∧ elseBranch.declares? = none
  | .whileLoop _ body => body.FormedBy N ∧ body.declares? = none
  | .funDecl declaration => declaration.FormedBy N
  | .returnStmt _ _ => True
  | .classDecl name superclass methods =>
    N name ∧ (∀ e ∈ superclass, ∃ id token, e = .name id token) ∧
    FunctionDecl.FormedByAll N methods

/-- Statements of which each is formed so. -/
def Stmt.FormedByAll (N : Token → Prop) : List Stmt → Prop
  | [] => True
  | s :: ss => s.FormedBy N ∧ Stmt.FormedByAll N ss

/-- The name and the parameters are as `N` says, and the body is formed so. -/
def FunctionDecl.FormedBy (N : Token → Prop) : FunctionDecl → Prop
  | ⟨name, parameters, body⟩ =>
    N name ∧ (∀ p ∈ parameters, N p) ∧ Stmt.FormedByAll N body

/-- Functions of which each is formed so. -/
def FunctionDecl.FormedByAll (N : Token → Prop) : List FunctionDecl → Prop
  | [] => True
  | d :: ds => d.FormedBy N ∧ FunctionDecl.FormedByAll N ds

end

/-- The statement has the shape of a statement, and what it declares are names. -/
abbrev Stmt.WellFormed : Stmt → Prop :=
  Stmt.FormedBy fun t => IsName t.lexeme

/-- Statements that are all well-formed. -/
abbrev Stmt.WellFormedAll : List Stmt → Prop :=
  Stmt.FormedByAll fun t => IsName t.lexeme

/-- The names of the function and of its parameters are names, and the body is well-formed. -/
abbrev FunctionDecl.WellFormed : FunctionDecl → Prop :=
  FunctionDecl.FormedBy fun t => IsName t.lexeme

/-- Functions that are all well-formed. -/
abbrev FunctionDecl.WellFormedAll : List FunctionDecl → Prop :=
  FunctionDecl.FormedByAll fun t => IsName t.lexeme

theorem FunctionDecl.FormedBy.name {N : Token → Prop} {f : FunctionDecl} (h : f.FormedBy N) :
    N f.name := by
  obtain ⟨name, parameters, body⟩ := f
  exact h.1

/-- The desugaring of `for` keeps declarations where statements are listed. -/
theorem Stmt.formedBy_forLoop {N : Token → Prop} {initializer : Option Stmt}
    {condition increment : Option Expr} {body : Stmt} (hinit : ∀ s ∈ initializer, s.FormedBy N)
    (hbody : body.FormedBy N) (plain : body.declares? = none) :
    (Stmt.forLoop initializer condition increment body).FormedBy N ∧
      (Stmt.forLoop initializer condition increment body).declares? = none := by
  cases initializer <;> cases increment <;>
    simp_all [Stmt.forLoop, Stmt.FormedBy, Stmt.FormedByAll, Stmt.declares?]

/-- The desugaring of `for` puts the increment behind the body. -/
theorem Stmt.references_forLoop (initializer : Option Stmt) (condition increment : Option Expr)
    (body : Stmt) :
    ((initializer.map Stmt.references).getD [] ++ (Expr.referencesOption condition ++
      (Expr.referencesOption increment ++ body.references))).Perm
      (Stmt.forLoop initializer condition increment body).references := by
  have swap : (Expr.referencesOption increment ++ body.references).Perm
      (body.references ++ Expr.referencesOption increment) := List.perm_append_comm
  have same : (Stmt.forLoop initializer condition increment body).references =
      (initializer.map Stmt.references).getD [] ++ (Expr.referencesOption condition ++
        (body.references ++ Expr.referencesOption increment)) := by
    cases initializer <;> cases condition <;> cases increment <;> simp [Stmt.forLoop]
  rw [same]
  exact (swap.append_left _).append_left _

end ClassScript
