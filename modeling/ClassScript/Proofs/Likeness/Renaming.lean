import ClassScript.Proofs.Likeness.Text

set_option autoImplicit false

/-!
# Renaming a local variable

A variable is known by its scope and its name.  To rename it is to change the name where the scope
declares it, in a `var` or among the parameters, and in just those references that the binding walk
finds in that scope.  What comes of it is alike, if the new name was nowhere before.
-/

namespace ClassScript

/-! ## The variable that is renamed -/

/-- Another name for a variable. -/
structure Renaming where
  old : String
  new : String

/-- A token of the scope of the variable, or of another. -/
def Renaming.apply (ρ : Renaming) (here : Bool) (t : Token) : Token :=
  if here && t.lexeme == ρ.old then { t with lexeme := ρ.new } else t

/-- The way to a scope: to which part of a tree it leads, to which part of that, and so on.  There is
none if the scope lies elsewhere. -/
abbrev Route : Type := Option (List Nat)

namespace Route

/-- The way on from the first part. -/
def first : Route → Route
  | some (0 :: rest) => some rest
  | _ => none

/-- The way as counted from the second part. -/
def others : Route → Route
  | some ((n + 1) :: rest) => some (n :: rest)
  | _ => none

/-- Whether the scope is reached. -/
def ends (route : Route) : Bool :=
  route == some []

end Route

/-- The name of the function or the class that a statement declares. -/
def Stmt.codeName? : Stmt → Option Token
  | .funDecl declaration => some declaration.name
  | .classDecl name _ _ => some name
  | _ => none

/-- Among these statements, a name is not that of a function or a class. -/
def isVariableAmong (name : String) (body : List Stmt) : Bool :=
  body.all fun s => s.codeName?.all fun t => t.lexeme != name

/-! ## Renaming in trees -/

section Renamed

variable (ρ : Renaming)

mutual

/-- The expression with the references renamed that refer to a scope which is marked. -/
def Expr.rename (marks : List Bool) (frames : List Frame) : Expr → Expr
  | .constant value => .constant value
  | .unary operator operand => .unary operator (operand.rename marks frames)
  | .binary left operator right =>
    .binary (left.rename marks frames) operator (right.rename marks frames)
  | .grouping inner => .grouping (inner.rename marks frames)
  | .name id t => .name id (ρ.apply (markAt marks (distance? t.lexeme frames)) t)
  | .assign id t value =>
    .assign id (ρ.apply (markAt marks (distance? t.lexeme frames)) t) (value.rename marks frames)
  | .logical left operator right =>
    .logical (left.rename marks frames) operator (right.rename marks frames)
  | .call callee closing arguments =>
    .call (callee.rename marks frames) closing (Expr.renameAll marks frames arguments)
  | .get object property => .get (object.rename marks frames) property
  | .set object property value =>
    .set (object.rename marks frames) property (value.rename marks frames)
  | .this id keyword => .this id keyword
  | .super id keyword method => .super id keyword method

/-- The expressions with the variable renamed. -/
def Expr.renameAll (marks : List Bool) (frames : List Frame) : List Expr → List Expr
  | [] => []
  | e :: es => e.rename marks frames :: Expr.renameAll marks frames es

end

mutual

/-- The statement with the variable renamed to whose scope the route leads. -/
def Stmt.rename (route : Route) (marks : List Bool) (frames : List Frame) : Stmt → Stmt
  | .expression value => .expression (value.rename ρ marks frames)
  | .print value => .print (value.rename ρ marks frames)
  | .varDecl name initializer =>
    .varDecl (ρ.apply (marks.headD false) name)
      (initializer.map (Expr.rename ρ marks (declareName name.lexeme frames)))
  | .block body =>
    let mark := route.ends && isVariableAmong ρ.old body
    .block (Stmt.renameAll route (mark :: marks) ([] :: frames) body)
  | .ifThen condition thenBranch =>
    .ifThen (condition.rename ρ marks frames) (thenBranch.rename route.first marks frames)
  | .ifElse condition thenBranch elseBranch =>
    .ifElse (condition.rename ρ marks frames) (thenBranch.rename route.first marks frames)
      (elseBranch.rename route.others.first marks (thenBranch.after frames))
  | .whileLoop condition body =>
    .whileLoop (condition.rename ρ marks frames) (body.rename route.first marks frames)
  | .funDecl declaration =>
    .funDecl (declaration.rename route marks (bindName declaration.name.lexeme frames))
  | .returnStmt keyword value => .returnStmt keyword (value.map (Expr.rename ρ marks frames))
  | .classDecl name none methods =>
    .classDecl name none (FunctionDecl.renameAll route (false :: marks)
      (receiverFrame :: bindName name.lexeme frames) methods)
  | .classDecl name (some superclass) methods =>
    .classDecl name (some (superclass.rename ρ marks (bindName name.lexeme frames)))
      (FunctionDecl.renameAll route (false :: false :: marks)
        (receiverFrame :: superclassFrame :: bindName name.lexeme frames) methods)

/-- The statements with the variable renamed, each in the scopes that those before it left. -/
def Stmt.renameAll (route : Route) (marks : List Bool) (frames : List Frame) :
    List Stmt → List Stmt
  | [] => []
  | s :: ss =>
    s.rename route.first marks frames :: Stmt.renameAll route.others marks (s.after frames) ss

/-- The function with the variable renamed; its parameters are variables of its scope. -/
def FunctionDecl.rename (route : Route) (marks : List Bool) (frames : List Frame) :
    FunctionDecl → FunctionDecl
  | ⟨name, parameters, body⟩ =>
    let mark := route.ends && isVariableAmong ρ.old body
    ⟨name, parameters.map (ρ.apply mark), Stmt.renameAll route (mark :: marks)
      (bindNames (parameters.map Token.lexeme) ([] :: frames)) body⟩

/-- The functions with the variable renamed, which lie in one scope. -/
def FunctionDecl.renameAll (route : Route) (marks : List Bool) (frames : List Frame) :
    List FunctionDecl → List FunctionDecl
  | [] => []
  | f :: fs => f.rename route.first marks frames :: FunctionDecl.renameAll route.others marks frames fs

end

end Renamed

/-! ## The names of a program -/

mutual

/-- The names that a statement declares, and all that are declared inside it. -/
def Stmt.declarations : Stmt → List Token
  | .expression _ | .print _ | .returnStmt _ _ => []
  | .varDecl name _ => [name]
  | .block body => Stmt.declarationsAll body
  | .ifThen _ thenBranch => thenBranch.declarations
  | .ifElse _ thenBranch elseBranch => thenBranch.declarations ++ elseBranch.declarations
  | .whileLoop _ body => body.declarations
  | .funDecl declaration => declaration.declarations
  | .classDecl name _ methods => name :: FunctionDecl.declarationsAll methods

/-- What is declared in statements. -/
def Stmt.declarationsAll : List Stmt → List Token
  | [] => []
  | s :: ss => s.declarations ++ Stmt.declarationsAll ss

/-- The name of a function, its parameters, and what is declared in its body. -/
def FunctionDecl.declarations : FunctionDecl → List Token
  | ⟨name, parameters, body⟩ => name :: (parameters ++ Stmt.declarationsAll body)

/-- The names of functions, their parameters, and what is declared in their bodies. -/
def FunctionDecl.declarationsAll : List FunctionDecl → List Token
  | [] => []
  | f :: fs => f.declarations ++ FunctionDecl.declarationsAll fs

end

/-- The words by which a program declares bindings and refers to them. -/
def wordsOf (program : List Stmt) : List String :=
  (Stmt.declarationsAll program ++ (references program).map Reference.token).map Token.lexeme

/-! ## The renamed program is alike -/

/-- The guise changes the name of the variable, and links every reference to itself. -/
structure Guise.Renames (K : Guise) (ρ : Renaming) (A : Nat → Option Nat → Prop) : Prop where
  old : K.word ρ.old = ρ.new
  other : ∀ name, name ≠ ρ.old → name ≠ ρ.new → K.word name = name
  allows : ∀ mark name, name ≠ ρ.new → K.allows mark name
  line : ∀ n, K.line n n
  link : ∀ id d, A id d → K.link id id d

/-- The reference is not made by the new name, nor is `this` or `super` made by the old one, and its
number and distance satisfy a condition. -/
structure Reference.Renamable (ρ : Renaming) (A : Nat → Option Nat → Prop) (frames : List Frame)
    (r : Reference) : Prop where
  fresh : r.token.lexeme ≠ ρ.new
  keyword : r.kind = .this ∨ r.kind = .super → r.token.lexeme ≠ ρ.old
  placed : r.Placed A frames

section Alike

variable {K : Guise} {ρ : Renaming} {A : Nat → Option Nat → Prop} {t : Token} {mark : Bool}
  {marks : List Bool} {frames : List Frame} {id : Nat}

namespace Guise.Renames

variable (renames : K.Renames ρ A)
include renames

theorem token (t : Token) : K.SameToken t t := ⟨rfl, rfl, rfl, renames.line _⟩

theorem name (mark : Bool) (fresh : t.lexeme ≠ ρ.new) : K.SameName mark t (ρ.apply mark t) := by
  have allowed := renames.allows mark _ fresh
  unfold Renaming.apply
  cases mark with
  | false => exact ⟨rfl, rfl, rfl, renames.line _, allowed⟩
  | true =>
    by_cases old : t.lexeme = ρ.old
    · rw [if_pos (by simpa using old)]
      exact ⟨rfl, (congrArg K.word old).trans renames.old |>.symm, rfl, renames.line _, allowed⟩
    · rw [if_neg (by simpa using old)]
      exact ⟨rfl, (renames.other _ old fresh).symm, rfl, renames.line _, allowed⟩

/-- A name that is not the old one stays. -/
theorem stays (mark : Bool) (fresh : t.lexeme ≠ ρ.new)
    (other : mark = true → t.lexeme ≠ ρ.old) : K.SameName mark t t := by
  have same := renames.name mark fresh
  have kept : ρ.apply mark t = t := by
    unfold Renaming.apply
    cases mark with
    | false => rfl
    | true => exact if_neg (by simpa using other rfl)
  rwa [kept] at same

theorem reference {kind : ReferenceKind}
    (fits : (Reference.mk kind id t).Renamable ρ A frames) :
    K.SameReference marks frames id t id
      (ρ.apply (markAt marks (distance? t.lexeme frames)) t) :=
  ⟨renames.name _ fits.fresh, renames.link _ _ fits.placed⟩

theorem keyword {kind : ReferenceKind} (fits : (Reference.mk kind id t).Renamable ρ A frames)
    (special : kind = .this ∨ kind = .super) : K.SameReference marks frames id t id t :=
  ⟨renames.stays _ fits.fresh fun _ => fits.keyword special, renames.link _ _ fits.placed⟩

end Guise.Renames

/-- All references of the visits can be renamed. -/
def Renamable (ρ : Renaming) (A : Nat → Option Nat → Prop) (vs : List Visit) : Prop :=
  ∀ v ∈ vs, v.reference.Renamable ρ A v.scopes

theorem Renamable.references {sites : List Site} {rs : List Reference}
    (h : Renamable ρ A (visitsAt sites frames rs)) : ∀ r ∈ rs, r.Renamable ρ A frames :=
  fun _ hr => h _ (mem_visitsAt_of_mem hr)

theorem Renamable.append {vs us : List Visit} :
    Renamable ρ A (vs ++ us) ↔ Renamable ρ A vs ∧ Renamable ρ A us :=
  List.forall_mem_append

mutual

/-- An expression is like what it is renamed to. -/
theorem Expr.alike_rename (renames : K.Renames ρ A) (marks : List Bool) {frames : List Frame}
    (e : Expr) (fits : ∀ r ∈ e.references, r.Renamable ρ A frames) :
    e.Alike K marks frames (e.rename ρ marks frames) := by
  match e with
  | .constant value => exact .constant value
  | .unary _ inner => exact .unary (renames.token _) (inner.alike_rename renames marks fits)
  | .binary first _ second =>
    simp only [Expr.references_binary, List.forall_mem_append] at fits
    exact .binary (first.alike_rename renames marks fits.1) (renames.token _)
      (second.alike_rename renames marks fits.2)
  | .grouping inner => exact .grouping (inner.alike_rename renames marks fits)
  | .name id t =>
    simp only [Expr.references_name, List.forall_mem_singleton] at fits
    exact .name (renames.reference fits)
  | .assign id t value =>
    simp only [Expr.references_assign, List.forall_mem_cons] at fits
    exact .assign (renames.reference fits.1) (value.alike_rename renames marks fits.2)
  | .logical first _ second =>
    simp only [Expr.references_logical, List.forall_mem_append] at fits
    exact .logical (first.alike_rename renames marks fits.1) (renames.token _)
      (second.alike_rename renames marks fits.2)
  | .call callee _ arguments =>
    simp only [Expr.references_call, List.forall_mem_append] at fits
    exact .call (callee.alike_rename renames marks fits.1) (renames.token _)
      (Expr.alike_renameAll renames marks arguments fits.2)
  | .get object _ => exact .get (object.alike_rename renames marks fits) (renames.token _)
  | .set object _ value =>
    simp only [Expr.references_set, List.forall_mem_append] at fits
    exact .set (object.alike_rename renames marks fits.1) (renames.token _)
      (value.alike_rename renames marks fits.2)
  | .this id t =>
    simp only [Expr.references_this, List.forall_mem_singleton] at fits
    exact .this (renames.keyword fits (.inl rfl))
  | .super id t method =>
    simp only [Expr.references_super, List.forall_mem_singleton] at fits
    exact .super (renames.keyword fits (.inr rfl)) (renames.token _)

theorem Expr.alike_renameAll (renames : K.Renames ρ A) (marks : List Bool) {frames : List Frame}
    (es : List Expr) (fits : ∀ r ∈ Expr.referencesAll es, r.Renamable ρ A frames) :
    Expr.AlikeAll K marks frames es (Expr.renameAll ρ marks frames es) := by
  match es with
  | [] => exact .nil
  | e :: es =>
    simp only [Expr.referencesAll_cons, List.forall_mem_append] at fits
    exact .cons (e.alike_rename renames marks fits.1)
      (Expr.alike_renameAll renames marks es fits.2)

end

theorem Expr.alike_renameOption (renames : K.Renames ρ A) (marks : List Bool) (e : Option Expr)
    (fits : ∀ r ∈ Expr.referencesOption e, r.Renamable ρ A frames) :
    Expr.AlikeOption K marks frames e (e.map (Expr.rename ρ marks frames)) := by
  cases e with
  | none => exact .none
  | some e => exact .some (e.alike_rename renames marks fits)

theorem Stmt.codeName?_of_declares? {s : Stmt} (h : s.declares? = none) : s.codeName? = none := by
  cases s <;> simp [Stmt.declares?] at h <;> rfl

theorem codeName_of_isVariableAmong {name : String} {body : List Stmt} {ends : Bool}
    (h : (ends && isVariableAmong name body) = true) :
    ∀ s ∈ body, ∀ t ∈ s.codeName?, t.lexeme ≠ name := by
  intro s hs t ht
  have among := (Bool.and_eq_true_iff.1 h).2
  have whole := List.all_eq_true.1 among s hs
  rw [ht] at whole
  simpa using whole

mutual

/-- A statement is like what it is renamed to. -/
theorem Stmt.alike_rename (renames : K.Renames ρ A) (route : Route) (marks : List Bool)
    {frames : List Frame} {sites : List Site} (s : Stmt) (formed : s.WellFormed)
    (fresh : ∀ t ∈ s.declarations, t.lexeme ≠ ρ.new)
    (code : marks.headD false = true → ∀ t ∈ s.codeName?, t.lexeme ≠ ρ.old)
    (fits : Renamable ρ A (s.visits sites frames)) :
    s.Alike K marks frames (s.rename ρ route marks frames) := by
  match s with
  | .expression value => exact .expression (value.alike_rename renames marks fits.references)
  | .print value => exact .print (value.alike_rename renames marks fits.references)
  | .varDecl name initializer =>
    exact .varDecl (renames.name _ (fresh name (List.mem_singleton_self _)))
      (Expr.alike_renameOption renames marks initializer fits.references)
  | .block body =>
    exact .block _ (Stmt.alike_renameAll renames route _ body formed fresh
      codeName_of_isVariableAmong fits)
  | .ifThen condition first =>
    rw [Stmt.visits, Renamable.append] at fits
    have plain := Stmt.codeName?_of_declares? formed.2
    exact .ifThen (condition.alike_rename renames marks fits.1.references)
      (first.alike_rename renames _ marks formed.1 fresh (by simp [plain]) fits.2)
  | .ifElse condition first second =>
    rw [Stmt.visits, Renamable.append, Renamable.append] at fits
    rw [Stmt.declarations, List.forall_mem_append] at fresh
    have plain := Stmt.codeName?_of_declares? formed.1.2
    have plain' := Stmt.codeName?_of_declares? formed.2.2
    exact .ifElse (condition.alike_rename renames marks fits.1.1.references)
      (first.alike_rename renames _ marks formed.1.1 fresh.1 (by simp [plain]) fits.1.2)
      (second.alike_rename renames _ marks formed.2.1 fresh.2 (by simp [plain']) fits.2)
  | .whileLoop condition body =>
    rw [Stmt.visits, Renamable.append] at fits
    have plain := Stmt.codeName?_of_declares? formed.2
    exact .whileLoop (condition.alike_rename renames marks fits.1.references)
      (body.alike_rename renames _ marks formed.1 fresh (by simp [plain]) fits.2)
  | .funDecl ⟨name, parameters, body⟩ =>
    exact .funDecl (renames.stays _ (fresh name (List.mem_cons_self ..))
      fun here => code here name rfl)
      (FunctionDecl.alike_rename renames route marks ⟨name, parameters, body⟩ formed fresh fits)
  | .returnStmt _ value =>
    exact .returnStmt (renames.token _) (Expr.alike_renameOption renames marks value fits.references)
  | .classDecl name none methods =>
    rw [Stmt.declarations, List.forall_mem_cons] at fresh
    exact .rootClass (renames.token _)
      (renames.stays _ fresh.1 fun here => code here name rfl)
      (FunctionDecl.alike_renameAll renames route _ methods formed.2.2 fresh.2 fits)
  | .classDecl name (some superclass) methods =>
    rw [Stmt.declarations, List.forall_mem_cons] at fresh
    simp only [Stmt.visits, Renamable.append] at fits
    exact .subclass (renames.token _)
      (renames.stays _ fresh.1 fun here => code here name rfl)
      (superclass.alike_rename renames marks fits.1.references)
      (FunctionDecl.alike_renameAll renames route _ methods formed.2.2 fresh.2 fits.2)

theorem Stmt.alike_renameAll (renames : K.Renames ρ A) (route : Route) (marks : List Bool)
    {frames : List Frame} {sites : List Site} (ss : List Stmt) (formed : Stmt.WellFormedAll ss)
    (fresh : ∀ t ∈ Stmt.declarationsAll ss, t.lexeme ≠ ρ.new)
    (code : marks.headD false = true → ∀ s ∈ ss, ∀ t ∈ s.codeName?, t.lexeme ≠ ρ.old)
    (fits : Renamable ρ A (Stmt.visitsAll sites frames ss)) :
    Stmt.AlikeAll K marks frames ss (Stmt.renameAll ρ route marks frames ss) := by
  match ss with
  | [] => exact .nil
  | s :: ss =>
    rw [Stmt.visitsAll, Renamable.append] at fits
    rw [Stmt.declarationsAll, List.forall_mem_append] at fresh
    exact .cons
      (s.alike_rename renames _ marks formed.1 fresh.1
        (fun here => code here s (List.mem_cons_self ..)) fits.1)
      (Stmt.alike_renameAll renames _ marks ss formed.2 fresh.2
        (fun here u hu => code here u (List.mem_cons_of_mem _ hu)) fits.2)

theorem FunctionDecl.alike_rename (renames : K.Renames ρ A) (route : Route) (marks : List Bool)
    {frames : List Frame} {sites : List Site} (f : FunctionDecl) (formed : f.WellFormed)
    (fresh : ∀ t ∈ f.declarations, t.lexeme ≠ ρ.new)
    (fits : Renamable ρ A (f.visits sites frames)) :
    f.Alike K marks frames (f.rename ρ route marks frames) := by
  match f with
  | ⟨name, parameters, body⟩ =>
    rw [FunctionDecl.declarations, List.forall_mem_cons, List.forall_mem_append] at fresh
    exact .mk _ (renames.token _)
      (List.forall₂_map_right_iff.2
        (List.forall₂_same.2 fun t ht => renames.name _ (fresh.2.1 t ht)))
      (Stmt.alike_renameAll renames route _ body formed.2.2 fresh.2.2
        codeName_of_isVariableAmong fits)

theorem FunctionDecl.alike_renameAll (renames : K.Renames ρ A) (route : Route)
    (marks : List Bool) {frames : List Frame} {sites : List Site} (fs : List FunctionDecl)
    (formed : FunctionDecl.WellFormedAll fs)
    (fresh : ∀ t ∈ FunctionDecl.declarationsAll fs, t.lexeme ≠ ρ.new)
    (fits : Renamable ρ A (FunctionDecl.visitsAll sites frames fs)) :
    FunctionDecl.AlikeAll K marks frames fs (FunctionDecl.renameAll ρ route marks frames fs) := by
  match fs with
  | [] => exact .nil
  | f :: fs =>
    rw [FunctionDecl.visitsAll, Renamable.append] at fits
    rw [FunctionDecl.declarationsAll, List.forall_mem_append] at fresh
    exact .cons (f.alike_rename renames _ marks formed.1 fresh.1 fits.1)
      (FunctionDecl.alike_renameAll renames _ marks fs formed.2 fresh.2 fits.2)

end

end Alike

end ClassScript
