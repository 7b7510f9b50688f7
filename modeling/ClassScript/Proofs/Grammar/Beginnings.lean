import ClassScript.Proofs.Grammar.Soundness

set_option autoImplicit false

/-!
# Beginnings of sentences

A list of tokens is a beginning of a phrase if other tokens can be put behind it that make it one.
A beginning of a part is, with what stands before the part, a beginning of the whole: `Begins.within`
says so for a part in its surroundings.  All rules are meant in their relaxed form here, in which an
assignment is any `logic_or`, and then perhaps a value.
-/

namespace ClassScript.Grammar

/-! ## Relaxed assignments -/

/-- Whatever stands before an equals sign, the rule for it is there. -/
theorem derives_relaxed_assignment {ts us : List Token} {target value : Expr} {equal : Token}
    (htarget : Derives .relaxed .logicOr ts target) (hequal : equal.kind = .equal)
    (hvalue : Derives .relaxed .assignment us value) :
    ∃ e, Derives .relaxed .assignment (ts ++ equal :: us) e := by
  cases target with
  | name id token => exact ⟨_, Parser.derives_assign htarget hequal hvalue⟩
  | get object property => exact ⟨_, Parser.derives_set htarget hequal hvalue⟩
  | _ => exact ⟨_, .assignOther rfl htarget rfl hequal hvalue⟩

/-- The relaxed rule: `assignment → logic_or ( "=" assignment )?`. -/
theorem relaxed_assignment_iff {ts : List Token} :
    (∃ e, Derives .relaxed .assignment ts e) ↔
      (∃ e, Derives .relaxed .logicOr ts e) ∨
      ∃ us equal vs, ts = us ++ equal :: vs ∧ (∃ e, Derives .relaxed .logicOr us e) ∧
        equal.kind = .equal ∧ ∃ e, Derives .relaxed .assignment vs e := by
  constructor
  · rintro ⟨e, h⟩
    cases h with
    | @assignName name equal vs e hname hequal hvalue =>
      have target : Derives .relaxed .logicOr [name] (.name 0 name) :=
        .logicOrFirst (.logicAndFirst (.equalityFirst (.comparisonFirst (.termFirst (.factorFirst
          (.unaryCall (.callFirst (.name hname))))))))
      exact .inr ⟨[name], equal, vs, rfl, ⟨_, target⟩, hequal, ⟨_, hvalue⟩⟩
    | @assignProperty dot name equal us vs object e hobject hdot hname hequal hvalue =>
      have target : Derives .relaxed .logicOr (us ++ [dot, name]) (.get object name) :=
        .logicOrFirst (.logicAndFirst (.equalityFirst (.comparisonFirst (.termFirst (.factorFirst
          (.unaryCall (.callProperty hobject hdot hname)))))))
      exact .inr ⟨_, equal, vs, by simp, ⟨_, target⟩, hequal, ⟨_, hvalue⟩⟩
    | assignOther _ htarget _ hequal hvalue =>
      exact .inr ⟨_, _, _, rfl, ⟨_, htarget⟩, hequal, ⟨_, hvalue⟩⟩
    | assignNothing htarget => exact .inl ⟨_, htarget⟩
  · rintro (⟨e, h⟩ | ⟨us, equal, vs, rfl, ⟨target, htarget⟩, hequal, value, hvalue⟩)
    · exact ⟨e, .assignNothing h⟩
    · exact derives_relaxed_assignment htarget hequal hvalue

theorem relaxed_not_strict : Dialect.relaxed.strict ≠ true :=
  Bool.false_ne_true

/-! ## The closing token -/

/-- There is no closing token among the tokens. -/
def Unclosed (ts : List Token) : Prop :=
  ∀ t ∈ ts, t.kind ≠ .endOfSource

@[simp] theorem unclosed_nil : Unclosed [] :=
  fun _ => (nomatch ·)

@[simp] theorem unclosed_append {ts us : List Token} : Unclosed (ts ++ us) ↔ Unclosed ts ∧ Unclosed us :=
  List.forall_mem_append

@[simp] theorem unclosed_cons {t : Token} {ts : List Token} :
    Unclosed (t :: ts) ↔ t.kind ≠ .endOfSource ∧ Unclosed ts :=
  List.forall_mem_cons

/-- A kind from a list without the closing one. -/
theorem ne_closing_of_mem {t : Token} {kinds : List TokenKind} (h : t.kind ∈ kinds)
    (apart : .endOfSource ∉ kinds) : t.kind ≠ .endOfSource :=
  fun closing => apart (closing ▸ h)

/-- No rule but that for programs asks for the end of the source. -/
theorem Derives.unclosed {d : Dialect} {p : Phrase} {ts : List Token} {y : p.Yield}
    (h : Derives d p ts y) (inner : p ≠ .program) : Unclosed ts := by
  induction h with
  | program => exact (inner rfl).elim
  | literal kind => exact kind.elim (by simp_all) (by simp_all)
  | equalityMore _ op _ ihl ihr | comparisonMore _ op _ ihl ihr | termMore _ op _ ihl ihr
  | factorMore _ op _ ihl ihr => simp_all [ne_closing_of_mem op (by decide)]
  | unaryOperator op _ ih => simp_all [ne_closing_of_mem op (by decide)]
  | _ => simp_all

/-! ## Beginnings -/

section

variable {α β : Type}

/-- The tokens can be continued to a list that follows the rule. -/
def Begins (rule : List Token → α → Prop) (ts : List Token) : Prop :=
  ∃ us y, rule (ts ++ us) y

theorem Begins.of {rule : List Token → α → Prop} {ts : List Token} {y : α} (h : rule ts y) :
    Begins rule ts :=
  ⟨[], y, by rwa [List.append_nil]⟩

/-- What begins a beginning is one. -/
theorem Begins.shorten {rule : List Token → α → Prop} {ts us : List Token} (h : Begins rule us)
    (first : ts <+: us) : Begins rule ts := by
  obtain ⟨vs, rfl⟩ := first
  obtain ⟨ws, y, h⟩ := h
  exact ⟨vs ++ ws, y, by rwa [← List.append_assoc]⟩

/-- A part that has begun is the beginning of what it is by itself. -/
theorem Begins.imp {part : List Token → α → Prop} {whole : List Token → β → Prop}
    {ts : List Token} (h : Begins part ts) (rule : ∀ us y, part us y → ∃ z, whole us z) :
    Begins whole ts := by
  obtain ⟨us, y, h⟩ := h
  obtain ⟨z, h⟩ := rule _ y h
  exact ⟨us, z, h⟩

/-- A part that has begun, in the surroundings in which it makes the whole. -/
theorem Begins.within {part : List Token → α → Prop} {whole : List Token → β → Prop}
    {ts ws : List Token} (h : Begins part ts) (before after : List Token) (all : ws = before ++ ts)
    (surroundings : ∀ us y, part us y → ∃ z, whole (before ++ (us ++ after)) z) :
    Begins whole ws := by
  obtain ⟨us, y, h⟩ := h
  obtain ⟨z, joined⟩ := surroundings _ y h
  exact ⟨us ++ after, z, by simpa [all] using joined⟩

end

/-- Some token of a kind. -/
def bare (kind : TokenKind) : Token :=
  ⟨kind, "", none, 0⟩

theorem bare_kind (kind : TokenKind) : (bare kind).kind = kind := rfl

end ClassScript.Grammar
