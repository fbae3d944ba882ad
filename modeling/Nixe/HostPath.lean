/-
**Paths of a host.**

A path is a text that the host reads as a drive, a root and a list of names.  Two readings are
developed: one in which `/` separates names, and one in which `/` and `\` do and in which a letter
and a colon name a drive.  A text is pushed onto a path without being looked at, so that a text with
a separator or a drive in it does more than add a name.

Main definitions:

* `Rules` — the two readings;
* `push`, `joined` — appending a text, or several, to a path;
* `parse` — what a path means;
* `Plain` — a text that is one name and nothing else.

Main results:

* `parse_joined` — **plain texts add their names**;
* `parse_joined_iff` — and no other texts without a plain separator do.
-/
import Mathlib.Tactic

set_option autoImplicit false

namespace Nixe.HostPath

open List Bool

/-- How a host reads a path. -/
inductive Rules
  | unix
  | windows
  deriving DecidableEq, Repr

variable {rules : Rules} {base text name : List Char} {texts : List (List Char)} {c : Char}

/-- The characters between names. -/
def Rules.isSeparator : Rules → Char → Bool
  | .unix, c => c == '/'
  | .windows, c => c == '/' || c == '\\'

/-- The separator that a host writes. -/
def Rules.mainSeparator : Rules → Char
  | .unix => '/'
  | .windows => '\\'

/-- The length of the drive at the start of a path. -/
def Rules.driveLength : Rules → List Char → ℕ
  | .windows, letter :: ':' :: _ => if letter.isAlpha then 2 else 0
  | _, _ => 0

/-- Whether a path goes on from a root, after its drive. -/
def Rules.rooted (rules : Rules) (path : List Char) : Bool :=
  (path.drop (rules.driveLength path)).head?.any rules.isSeparator

/-- `PathBuf::push`: a drive starts the path anew, a root leaves the drive. -/
def push (rules : Rules) (base text : List Char) : List Char :=
  if rules.driveLength text ≠ 0 then text
  else if rules.rooted text then base.take (rules.driveLength base) ++ text
  else if base.getLast?.any (fun c => !rules.isSeparator c) &&
      base.length != rules.driveLength base then base ++ rules.mainSeparator :: text
  else base ++ text

def joined (rules : Rules) (base : List Char) (texts : List (List Char)) : List Char :=
  texts.foldl (push rules) base

@[simp] theorem joined_nil : joined rules base [] = base := rfl

@[simp] theorem joined_cons : joined rules base (text :: texts) =
    joined rules (push rules base text) texts := rfl

theorem joined_append (texts' : List (List Char)) :
    joined rules base (texts ++ texts') = joined rules (joined rules base texts) texts' :=
  foldl_append

/-- The names between the separators of a text; the current directory is not a name. -/
def Rules.names (rules : Rules) (text : List Char) : List (List Char) :=
  (text.splitOnP rules.isSeparator).filter fun name => name ≠ [] ∧ name ≠ ['.']

structure Meaning where
  drive : List Char
  rooted : Bool
  names : List (List Char)
  deriving DecidableEq, Repr

def parse (rules : Rules) (path : List Char) : Meaning where
  drive := path.take (rules.driveLength path)
  rooted := rules.rooted path
  names := rules.names (path.drop (rules.driveLength path))

/-- More names below a path. -/
def Meaning.extend (meaning : Meaning) (names : List (List Char)) : Meaning :=
  { meaning with names := meaning.names ++ names }

/-- The text is one name: it has no separator, no drive, and does not stand for the current
directory. -/
structure Plain (rules : Rules) (text : List Char) : Prop where
  ne_nil : text ≠ []
  ne_dot : text ≠ ['.']
  separators : ∀ c ∈ text, rules.isSeparator c = false
  drive : rules.driveLength text = 0

/-! ### Names -/

theorem mem_splitOnP {p : Char → Bool} : ∀ {text : List Char},
    name ∈ text.splitOnP p → ∀ c ∈ name, p c = false := by
  intro text
  induction text generalizing name with
  | nil =>
    intro hname
    rw [mem_singleton.1 hname]
    simp
  | cons x text ih =>
    rw [splitOnP_cons_eq_if_modifyHead]
    cases hx : p x with
    | true =>
      simp only [if_true, mem_cons]
      rintro (rfl | hname)
      · simp
      · exact ih hname
    | false =>
      obtain ⟨first, rest, hsplit⟩ := exists_cons_of_ne_nil (splitOnP_ne_nil p text)
      simp only [hsplit, false_eq_true, if_false, modifyHead_cons, mem_cons]
      rintro (rfl | hname)
      · simp only [mem_cons]
        rintro c (rfl | hc)
        · exact hx
        · exact ih (hsplit ▸ mem_cons_self) c hc
      · exact ih (hsplit ▸ mem_cons_of_mem _ hname)

theorem names_append_cons {separator : Char} (hseparator : rules.isSeparator separator = true)
    (a b : List Char) : rules.names (a ++ separator :: b) = rules.names a ++ rules.names b := by
  unfold Rules.names
  rw [splitOnP_append_cons a b hseparator, filter_append]

theorem mem_names (h : name ∈ rules.names text) : ∀ c ∈ name, rules.isSeparator c = false :=
  mem_splitOnP (mem_of_mem_filter h)

/-- A text without separators has at most itself as a name. -/
theorem mem_names_of_separators (htext : ∀ c ∈ text, rules.isSeparator c = false)
    (h : name ∈ rules.names text) : name = text := by
  rw [Rules.names, splitOnP_eq_singleton htext] at h
  exact mem_singleton.1 (mem_of_mem_filter h)

theorem Plain.names (h : Plain rules text) : rules.names text = [text] := by
  rw [Rules.names, splitOnP_eq_singleton h.separators]
  simp [h.ne_nil, h.ne_dot]

theorem Plain.not_rooted (h : Plain rules text) : rules.rooted text = false := by
  obtain ⟨c, rest, rfl⟩ := exists_cons_of_ne_nil h.ne_nil
  rw [Rules.rooted, h.drive]
  exact h.separators c mem_cons_self

/-! ### Pushing a plain text -/

theorem isSeparator_mainSeparator : rules.isSeparator rules.mainSeparator = true := by
  cases rules <;> rfl

theorem driveLength_le {path : List Char} : rules.driveLength path ≤ path.length := by
  unfold Rules.driveLength
  split
  · split <;> simp
  · exact Nat.zero_le _

theorem driveLength_cons_cons (x y : Char) (rest : List Char) :
    rules.driveLength (x :: y :: rest) = rules.driveLength [x, y] := by
  cases rules with
  | unix => rfl
  | windows =>
    by_cases hy : y = ':'
    · subst hy
      rfl
    · simp [Rules.driveLength, hy]

theorem driveLength_separator (hc : rules.isSeparator c = true) (rest : List Char) :
    rules.driveLength (c :: rest) = 0 := by
  cases rules with
  | unix => rfl
  | windows =>
    have halpha : c.isAlpha = false := by
      simp only [Rules.isSeparator, or_eq_true, beq_iff_eq] at hc
      rcases hc with rfl | rfl <;> decide
    unfold Rules.driveLength
    split
    · rename_i heq
      cases heq
      simp [halpha]
    · rfl

theorem driveLength_second {x y : Char} (hy : rules.isSeparator y = true) (rest : List Char) :
    rules.driveLength (x :: y :: rest) = 0 := by
  cases rules with
  | unix => rfl
  | windows =>
    have hcolon : y ≠ ':' := by
      rintro rfl
      cases hy
    simp [Rules.driveLength, hcolon]

/-- What follows a path leaves its drive alone, if a separator stands between. -/
theorem driveLength_append_separator (hc : rules.isSeparator c = true)
    (rest : List Char) : rules.driveLength (base ++ c :: rest) = rules.driveLength base := by
  match base with
  | [] => exact (driveLength_separator hc rest).trans (by cases rules <;> rfl)
  | [x] => exact (driveLength_second hc rest).trans (by cases rules <;> rfl)
  | x :: y :: base =>
    rw [cons_append, cons_append, driveLength_cons_cons, driveLength_cons_cons x y base]

theorem driveLength_append_drive (hdrive : base.length = rules.driveLength base)
    (htext : rules.driveLength text = 0) :
    rules.driveLength (base ++ text) = rules.driveLength base := by
  match base with
  | [] => exact htext.trans (by cases rules <;> rfl)
  | [x] => cases rules <;> cases hdrive
  | x :: y :: base =>
    rw [cons_append, cons_append, driveLength_cons_cons, driveLength_cons_cons x y base]

/-- The meaning of a path with a separator in it. -/
theorem parse_append_cons (hc : rules.isSeparator c = true) (rest : List Char) :
    parse rules (base ++ c :: rest) = {
      drive := base.take (rules.driveLength base)
      rooted := ((base.drop (rules.driveLength base)).head?.getD c |> rules.isSeparator)
      names := rules.names (base.drop (rules.driveLength base)) ++ rules.names rest } := by
  have hle : rules.driveLength base ≤ base.length := driveLength_le
  unfold parse Rules.rooted
  rw [driveLength_append_separator hc, take_append_of_le_length hle,
    drop_append_of_le_length hle, names_append_cons hc]
  cases base.drop (rules.driveLength base) <;> rfl

/-- **A plain text adds its name.** -/
theorem parse_push (h : Plain rules text) :
    parse rules (push rules base text) = (parse rules base).extend [text] := by
  unfold push
  rw [if_neg (not_not.2 h.drive), if_neg (by rw [h.not_rooted]; simp)]
  split
  · rename_i hseparate
    rw [and_eq_true, bne_iff_ne] at hseparate
    have hrest : base.drop (rules.driveLength base) ≠ [] := by
      have hle : rules.driveLength base ≤ base.length := driveLength_le
      rw [Ne, drop_eq_nil_iff]
      omega
    obtain ⟨first, rest, hfirst⟩ := exists_cons_of_ne_nil hrest
    rw [parse_append_cons isSeparator_mainSeparator, h.names]
    unfold parse Meaning.extend Rules.rooted
    rw [hfirst]
    rfl
  · rename_i hclose
    by_cases hdrive : base.length = rules.driveLength base
    · -- a drive and nothing else, or nothing at all
      unfold parse Meaning.extend Rules.rooted
      rw [driveLength_append_drive hdrive h.drive, ← hdrive, take_left, drop_left,
        take_length, drop_length, h.names]
      have hfirst := h.not_rooted
      rw [Rules.rooted, h.drive, drop_zero] at hfirst
      rw [hfirst]
      rfl
    · -- the path ends with a separator
      have hlast : base.getLast?.any (fun c => !rules.isSeparator c) = false := by
        rw [and_eq_true, bne_iff_ne] at hclose
        exact eq_false_iff.2 fun hany => hclose ⟨hany, hdrive⟩
      rcases eq_nil_or_concat base with rfl | ⟨front, c, rfl⟩
      · cases rules <;> exact absurd rfl hdrive
      · have hc : rules.isSeparator c = true := by simpa using hlast
        rw [concat_eq_append, append_assoc, singleton_append, parse_append_cons hc,
          parse_append_cons hc, h.names]
        simp [Meaning.extend, Rules.names]

theorem parse_joined (h : ∀ text ∈ texts, Plain rules text) :
    parse rules (joined rules base texts) = (parse rules base).extend texts := by
  induction texts generalizing base with
  | nil => simp [Meaning.extend]
  | cons text texts ih =>
    rw [joined_cons, ih (fun t ht => h t (mem_cons_of_mem _ ht)), parse_push (h text mem_cons_self)]
    simp [Meaning.extend]

/-! ### Texts that are not plain -/

/-- The last drive among some texts starts the path. -/
theorem joined_drive (hdrive : ∃ text ∈ texts, rules.driveLength text ≠ 0) (base : List Char) :
    ∃ text rest, text ∈ texts ∧ rules.driveLength text ≠ 0 ∧ (∀ t ∈ rest, t ∈ texts) ∧
      (∀ t ∈ rest, rules.driveLength t = 0) ∧ joined rules base texts = joined rules text rest := by
  induction texts generalizing base with
  | nil => simp at hdrive
  | cons text texts ih =>
    by_cases hlater : ∃ t ∈ texts, rules.driveLength t ≠ 0
    · obtain ⟨t, rest, hmem, ht, hrest, hplain, hjoined⟩ := ih hlater _
      exact ⟨t, rest, mem_cons_of_mem _ hmem, ht,
        fun t ht => mem_cons_of_mem _ (hrest t ht), hplain, hjoined⟩
    · have hnone : ∀ t ∈ texts, rules.driveLength t = 0 := by
        simpa using hlater
      obtain ⟨t, hmem, ht⟩ := hdrive
      rcases mem_cons.1 hmem with rfl | hmem
      · refine ⟨t, texts, mem_cons_self, ht, fun t => mem_cons_of_mem _, hnone, ?_⟩
        rw [joined_cons, push, if_pos ht]
      · exact absurd (hnone t hmem) ht

theorem drive_not_mem_names (hdrive : rules.driveLength text ≠ 0)
    (hseparators : ∀ c ∈ text, rules.isSeparator c = false) :
    text ∉ rules.names (text.drop (rules.driveLength text)) := by
  intro hmem
  have heq := mem_names_of_separators (fun c hc => hseparators c (mem_of_mem_drop hc)) hmem
  have hlength := congrArg length heq
  have hle : rules.driveLength text ≤ text.length := driveLength_le
  rw [length_drop] at hlength
  omega

/-- **Only plain texts add exactly their names.** -/
theorem parse_joined_iff (hnames : ∀ text ∈ texts, text ≠ [] ∧ text ≠ ['.']) :
    parse rules (joined rules base texts) = (parse rules base).extend texts ↔
      ∀ text ∈ texts, Plain rules text := by
  refine ⟨fun h => ?_, fun h => parse_joined h⟩
  have hmem : ∀ text ∈ texts, text ∈ (parse rules (joined rules base texts)).names := by
    intro text htext
    rw [h]
    exact mem_append_right _ htext
  have hseparators : ∀ text ∈ texts, ∀ c ∈ text, rules.isSeparator c = false :=
    fun text htext => mem_names (hmem text htext)
  have hdrives : ∀ text ∈ texts, rules.driveLength text = 0 := by
    by_contra hdrive
    push Not at hdrive
    obtain ⟨text, rest, htext, hlong, hrest, hplain, hjoined⟩ := joined_drive hdrive base
    have hinside := hmem text htext
    rw [hjoined, parse_joined fun t ht => ⟨(hnames t (hrest t ht)).1, (hnames t (hrest t ht)).2,
      hseparators t (hrest t ht), hplain t ht⟩] at hinside
    rcases mem_append.1 hinside with hinside | hinside
    · exact drive_not_mem_names hlong (hseparators text htext) hinside
    · exact hlong (hplain text hinside)
  exact fun text htext => ⟨(hnames text htext).1, (hnames text htext).2, hseparators text htext,
    hdrives text htext⟩

theorem joined_injective {texts' : List (List Char)} (h : ∀ text ∈ texts, Plain rules text)
    (h' : ∀ text ∈ texts', Plain rules text)
    (heq : parse rules (joined rules base texts) = parse rules (joined rules base texts')) :
    texts = texts' := by
  rw [parse_joined h, parse_joined h'] at heq
  exact append_cancel_left (congrArg Meaning.names heq)

/-- With `/` alone between names, every other text is plain. -/
theorem plain_unix (hnil : text ≠ []) (hdot : text ≠ ['.']) (hslash : '/' ∉ text) :
    Plain .unix text := by
  refine ⟨hnil, hdot, fun c hc => ?_, rfl⟩
  refine eq_false_iff.2 fun hsep => hslash ?_
  rw [Rules.isSeparator, beq_iff_eq] at hsep
  exact hsep ▸ hc

end Nixe.HostPath
