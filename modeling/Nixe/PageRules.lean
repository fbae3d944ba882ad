/-
**The discipline of the calls.**

What the calls on pages owe each other, stated operation by operation: a page leaves an owner record
only after the record is fractured, it leaves the clean state only after its observers were
notified, a layout gets an owner record only when every page of the range has it, bytes of a
readback are stored only while the tokens of the readback are current, a page comes back to the CPU
only with such bytes, and in a run of one device nothing makes a page conflicting.  `Good` collects
these obligations.  Here are the facts that follow for every run in which all operations are good;
that those of the calls are is shown in `Nixe.PageTransitions` and the modules after it.

Main definitions:

* `Good` — the obligations;
* `Owned`, `Pending`, `Untouched`, `ReadBack` — what they speak of;
* `Disciplined` — runs in which no hint is sampled in the middle of a transition;
* `OneDevice`, `Undisturbed`, `Peaceful` — runs of one device, in which no device owns a page when
  the CPU's authority is required.

Main results:

* `owned_kept`, `fractured_kept` — ownership of a page is only lost to a fracture;
* `hint_clean` — a clean hint is true;
* `layout_owned` — **the owner record of a layout, unless fractured, owns all of its pages**;
* `peaceful_state` — **a peaceful run has no conflict**;
* `read_back_between` — between a device's page and the CPU's lies a readback.
-/
import Nixe.PageSteps

set_option autoImplicit false

namespace Nixe.Memory

open Interleaving

abbrev Hist := History Shared Resp

/-! ### Notions about a moment -/

/-- The page is owned by the record, unless the record is fractured. -/
def Owned (s : Shared) (o p : ℕ) : Prop := (s.pages p).visibility = .gpuNewer o ∨ Fractured s o

def AllClean (s : Shared) (ps : List ℕ) : Prop := ∀ p ∈ ps, (s.pages p).visibility = .clean

/-- The holder of the mutex of `p` has notified the summary `n` and has not yet changed the
visibility of the page. -/
def Pending (p n : ℕ) : Hist → Prop
  | [] => False
  | e :: h => match e.op with
      | .bump q m => (q = p ∧ m = n) ∨ Pending p n h
      | .page q (.setVisibility _ _) => q ≠ p ∧ Pending p n h
      | .unlockPage q => q ≠ p ∧ Pending p n h
      | _ => Pending p n h

/-- The hint of a page is not sampled as clean while a transition of the page is under way. -/
def Sampled : Event Shared Resp → Hist → Prop
  | ⟨_, .loadHint p, .clean, _⟩, h => ∀ n, ¬ Pending p n h
  | _, _ => True

/-- No hint is sampled as clean in the middle of a transition. -/
def Disciplined : Hist → Prop
  | [] => True
  | e :: h => Sampled e h ∧ Disciplined h

/-- The event gives `p` new bytes: a CPU write, a publication of the page by a device, or the
advance of the owner record the page has. -/
def Touches (p : ℕ) (s : Shared) : Event Shared Resp → Prop
  | ⟨_, .page q (.copyBytes _ _), _, _⟩ => q = p
  | ⟨_, .page q (.setVisibility (.gpuNewer _) _), _, _⟩ => q = p
  | ⟨_, .layout r (.advance _), advanced, _⟩ => advanced = true ∧
      ∃ o, (s.layouts r).owner = some o ∧ (s.pages p).visibility = .gpuNewer o
  | _ => False

/-- The bytes of a readback have been stored in `p` since a device last published the page. -/
def ReadBack (p : ℕ) : Hist → Prop
  | [] => False
  | e :: h => match e.op with
      | .page q (.storeReadback _ _ _) => q = p ∨ ReadBack p h
      | .page q (.setVisibility (.gpuNewer _) _) => q ≠ p ∧ ReadBack p h
      | _ => ReadBack p h

/-- Thread `i` locks `p` and finds it in the hands of a device. -/
def meets (i p : ℕ) (e : Event Shared Resp) : Bool :=
  match e.op with
  | .lockPage q => e.thread = i && q = p && (e.post.pages p).visibility.gpuOwned
  | _ => false

/-- Since call number `k` of thread `i` began to wait for `p`, the thread has found the page in
the hands of a device at least `n` times. -/
def Met (i k p rounds n : ℕ) (h : Hist) : Prop :=
  ∃ t s base, h = t ++ ⟨i, .mark (.waits k p rounds), (), s⟩ :: base ∧ n ≤ t.countP (meets i p)

/-! ### Peaceful runs -/

/-- The publication an event declares. -/
def publication? (e : Event Shared Resp) : Option (ℕ × ℕ) :=
  match e.op with
  | .mark (.publishes device point) => some (device, point)
  | _ => none

/-- Every publication so far was for this device, and for a point not above this one. -/
def Follows (device point : ℕ) (h : Hist) : Prop :=
  ∀ x ∈ h.filterMap publication?, x.1 = device ∧ x.2 ≤ point

/-- The device has declared a publication for this point or a later one. -/
def Published (device point : ℕ) (h : Hist) : Prop :=
  ∃ x ∈ h.filterMap publication?, x.1 = device ∧ point ≤ x.2

/-- The thread has declared an access of a device, and its call has not returned. -/
def inDevice (i : ℕ) : Hist → Bool
  | [] => false
  | e :: h =>
    if e.thread = i then
      match e.op with
      | .mark (.prepares _ _) | .mark (.publishes _ _) => true
      | .mark .settles => false
      | _ => inDevice i h
    else inDevice i h

/-- No other thread is in a call for a device. -/
def Alone (i : ℕ) (h : Hist) : Prop := ∀ e ∈ h, e.thread ≠ i → inDevice e.thread h = false

/-- What a declaration of a device has to respect. -/
def Declaration (e : Event Shared Resp) (h : Hist) : Prop :=
  match e.op with
  | .mark (.prepares device point) | .mark (.publishes device point) =>
    Alone e.thread h ∧ Follows device point h
  | _ => True

/-- The accesses of the run are those of one device: its calls come one after another, and its
declared points never decrease. -/
def OneDevice : Hist → Prop
  | [] => True
  | e :: h => Declaration e h ∧ OneDevice h

section Obligations

variable (T : Topology) (env : ℕ → Answer)

/-- No device owns a page at the moment when a call requires the CPU's authority over it
without having looked under the same lock. -/
def Undisturbed : Hist → Prop
  | [] => True
  | e :: h => (match e.op with
      | .mark (.authority p) =>
        (((system T env).state h).pages p).visibility.gpuOwned = false
      | _ => True) ∧ Undisturbed h

/-- One device, and nothing between the CPU's look at a page and its claim. -/
structure Peaceful (h : Hist) : Prop where
  oneDevice : OneDevice h
  undisturbed : Undisturbed T env h

/-! ### Obligations -/

/-- What a transition of a page has to respect. -/
structure Transition (s : Shared) (h : Hist) (p : ℕ) (visibility : PageVisibility) (epoch : ℕ) :
    Prop where
  /-- The page leaves an owner record only when the record is fractured. -/
  detached : ∀ o, (s.pages p).visibility = .gpuNewer o → visibility = .gpuNewer o ∨ Fractured s o
  epoch_le : (s.pages p).visibilityEpoch ≤ epoch
  /-- The epoch stays only if the page was the CPU's, or if the page is given up for want of
  another epoch. -/
  epoch_kept : epoch = (s.pages p).visibilityEpoch → (s.pages p).visibility.cpuVisible = true ∨
    visibility = .invalid ∧ ((s.pages p).visibility.gpuOwned = true → u64Max ≤ epoch)
  hint : visibility ≠ .clean → (s.pages p).hint ≠ .clean
  notified : (s.pages p).visibility = .clean → visibility ≠ .clean →
    ∀ n ∈ (s.pages p).summaries, Pending p n h
  calm : visibility = .conflicting → ¬ Peaceful T env h
  /-- The CPU gets a page back only with the bytes of a readback. -/
  regained : visibility.cpuVisible = true → (s.pages p).visibility.cpuVisible = true ∨
    visibility = .clean ∧ ReadBack p h

/-- Nothing gave `p` new bytes in the events of the first history, after the second. -/
def Untouched (p : ℕ) : Hist → Hist → Prop
  | [], _ => True
  | e :: t, h => ¬ Touches p ((system T env).state (t ++ h)) e ∧ Untouched p t h

/-- The tokens of a readback are current. -/
structure ReadbackCurrent (s : Shared) (h : Hist) (i p o point : ℕ) : Prop where
  locked : (s.pages p).lock = some i
  /-- The page is still owned by the record, or its epochs are exhausted and it was given up. -/
  owned : (s.pages p).visibility = .gpuNewer o ∨
    (s.pages p).visibility = .invalid ∧ u64Max ≤ (s.pages p).visibilityEpoch
  record : ∃ owner, s.owner? o = some owner ∧ owner.point = point ∧ owner.fractured = true
  /-- No new bytes since the readback was requested. -/
  untouched : ∃ t base s₀, h = t ++ ⟨i, .mark (.request p o point), (), s₀⟩ :: base ∧
    Untouched T env p t (⟨i, .mark (.request p o point), (), s₀⟩ :: base)

/-- The readback is published. -/
structure ReadbackDone (s : Shared) (h : Hist) (i p o point : ℕ) : Prop where
  clean : (s.pages p).visibility = .clean
  record : ∃ owner, s.owner? o = some owner ∧ owner.point = point ∧ owner.fractured = true
  /-- No new bytes since those of the readback. -/
  untouched : ∃ t base s₀ bytes,
    h = t ++ ⟨i, .page p (.storeReadback o point bytes), (), s₀⟩ :: base ∧
    Untouched T env p t (⟨i, .page p (.storeReadback o point bytes), (), s₀⟩ :: base)

/-- How a stored readback ends: it is published, or the call fails for want of the host or of
a further epoch, and the page is given up or still the device's. -/
def ReadbackEnds (s : Shared) (h : Hist) (i p o point : ℕ) (result : Except VisibilityError Unit) :
    Prop :=
  ReadbackDone T env s h i p o point ∧ (result = .ok () ∨ result = .error .coordinator) ∨
  ((s.pages p).visibility = .invalid ∨ (s.pages p).visibility = .gpuNewer o) ∧
    (result = .error .hostMemory ∨ result = .error .visibilityEpochExhausted ∨
      result = .error .cpuDirtyEpochExhausted)

/-- The pages are clean, and no transition of one of them is under way. -/
def Settled (n : ℕ) (ps : List ℕ) (h : Hist) : Prop :=
  ∀ p ∈ ps, (((system T env).state h).pages p).visibility = .clean ∧ ¬ Pending p n h

/-- The last moment at which the summary `n` had this epoch, or a later one, found all pages
clean. -/
def LastClean (n epoch : ℕ) (ps : List ℕ) (h : Hist) : Prop :=
  ∃ t base, h = t ++ base ∧ AllClean ((system T env).state base) ps ∧
    ∀ t₁ t₂, t = t₁ ++ t₂ → t₂ ≠ [] → count ((system T env).state (t₂ ++ base)) n ≠ epoch

/-- What the epoch cached for a range stands for. -/
structure CleanSeen (n epoch : ℕ) (ps : List ℕ) (h : Hist) : Prop where
  le_count : epoch ≤ count ((system T env).state h) n
  settled : count ((system T env).state h) n = epoch → Settled T env n ps h
  last : LastClean T env n epoch ps h

/-- The event does not begin a residency check of thread `i`. -/
def NotEntry (i : ℕ) (e : Event Shared Resp) : Prop :=
  e.thread = i → ∀ r, e.op ≠ .mark (.enter r)

/-- At some moment of the residency check of `r` that thread `i` is in, all pages of the range
were clean. -/
def CleanInCall (i r : ℕ) (h : Hist) : Prop :=
  ∃ t t' base s₀, h = t ++ (t' ++ ⟨i, .mark (.enter r), (), s₀⟩ :: base) ∧
    (∀ e ∈ t ++ t', NotEntry i e) ∧
    AllClean ((system T env).state (t' ++ ⟨i, .mark (.enter r), (), s₀⟩ :: base))
      (T.pages r)

/-- At some moment of the residency check of `r` that thread `i` is in, the memory was so. -/
def InCall (i r : ℕ) (S : Shared → Prop) (h : Hist) : Prop :=
  ∃ t t' base s₀, h = t ++ (t' ++ ⟨i, .mark (.enter r), (), s₀⟩ :: base) ∧
    (∀ e ∈ t ++ t', NotEntry i e) ∧
    S ((system T env).state (t' ++ ⟨i, .mark (.enter r), (), s₀⟩ :: base))

/-- At some moment of the residency check of `r` that thread `i` is in, the record of the layout
owned all pages of the range. -/
def OwnedInCall (i r : ℕ) : Hist → Prop :=
  InCall T env i r fun s => ∃ o, (s.layouts r).owner = some o ∧
    ∀ p ∈ T.pages r, (s.pages p).visibility = .gpuNewer o

/-- The obligations, operation by operation. -/
def Good (e : Event Shared Resp) (h : Hist) : Prop :=
  match e with
  | ⟨_, .page p (.setVisibility visibility epoch), _, _⟩ =>
    Transition T env ((system T env).state h) h p visibility epoch
  | ⟨_, .page p (.storeHint .clean), _, _⟩ =>
    (((system T env).state h).pages p).visibility = .clean
  | ⟨_, .page p (.copyBytes _ _), _, _⟩ =>
    (((system T env).state h).pages p).visibility.cpuVisible = true
  | ⟨i, .page p (.storeReadback o point _), _, _⟩ =>
    ReadbackCurrent T env ((system T env).state h) h i p o point
  | ⟨i, .mark (.readbackReturns p o point result), _, _⟩ =>
    ReadbackEnds T env ((system T env).state h) h i p o point result
  | ⟨_, .layout r (.setOwner o), _, _⟩ =>
    ∀ p ∈ T.pages r, Owned ((system T env).state h) o p
  | ⟨_, .layout _ (.advance declaration), _, _⟩ => Peaceful T env h →
    ∀ point ∈ declaration.cpuVisibleAt, Published declaration.device point h
  | ⟨_, .newOwner device point, _, _⟩ => Peaceful T env h → Published device point h
  | ⟨_, .finishSummary r n, _, _⟩ =>
    n < ((system T env).state h).counters.length ∧
      ∀ p ∈ T.pages r, n ∈ (((system T env).state h).pages p).summaries
  | ⟨_, .insertSummary covered n, _, _⟩ =>
    n < ((system T env).state h).counters.length ∧
      ∀ p ∈ covered, n ∈ (((system T env).state h).pages p).summaries
  | ⟨_, .storeCleanEpoch r epoch, _, _⟩ => epoch < u64Max ∧
      ∃ n, (((system T env).state h).layouts r).summary = some n ∧
        epoch ≤ count ((system T env).state h) n ∧
        (Disciplined h → CleanSeen T env n epoch (T.pages r) h)
  | ⟨i, .mark (.cleanReadHit r), _, _⟩ => Disciplined h → CleanInCall T env i r h
  | ⟨i, .mark (.ownerHit r _), _, _⟩ => OwnedInCall T env i r h
  | ⟨i, .mark (.ends k p rounds result), _, _⟩ =>
    (result = .error none → Met i k p rounds rounds h) ∧
      (result = .error (some (.visibility .conflictingAccess)) → ¬ Peaceful T env h)
  | _ => True

end Obligations

/-! ### What good operations keep -/

section Kept

variable {T : Topology} {env : ℕ → Answer} {e : Event Shared Resp} {h : Hist}

theorem effect_of_executes (hexec : (system T env).Executes e h) :
    Effect e.thread ((system T env).state h) e.op e.post := effect_of_exec hexec

theorem fractured_kept {o : ℕ} : (system T env).Kept (Good T env) fun h =>
    Fractured ((system T env).state h) o :=
  fun _ _ _ hexec _ => (effect_of_executes hexec).fractured_mono

/-- A good transition respects the rules of transitions. -/
theorem Good.transition (hgood : Good T env e h) {p epoch : ℕ} {visibility : PageVisibility}
    (hop : e.op = .page p (.setVisibility visibility epoch)) :
    Transition T env ((system T env).state h) h p visibility epoch := by
  obtain ⟨i, op, answer, post⟩ := e
  subst hop
  exact hgood

/-- A transition of the page, or its visibility and epoch stay. -/
theorem transition_or_same (hexec : (system T env).Executes e h) {p : ℕ} :
    (∃ visibility epoch, e.op = .page p (.setVisibility visibility epoch) ∧
      (e.post.pages p).visibility = visibility ∧ (e.post.pages p).visibilityEpoch = epoch ∧
      (((system T env).state h).pages p).lock = some e.thread) ∨
    ((e.post.pages p).visibility = (((system T env).state h).pages p).visibility ∧
      (e.post.pages p).visibilityEpoch = (((system T env).state h).pages p).visibilityEpoch ∧
      ∀ visibility epoch, e.op ≠ .page p (.setVisibility visibility epoch)) := by
  have heffect := effect_of_executes hexec
  by_cases hop : ∃ visibility epoch, e.op = .page p (.setVisibility visibility epoch)
  · obtain ⟨visibility, epoch, hop⟩ := hop
    rcases heffect.page_cases p with hsame | ⟨hlock, -, -⟩ | ⟨hunlock, -, -⟩ |
      ⟨change, hchange, hheld, hpage⟩
    · obtain ⟨i, op, answer, post⟩ := e
      subst hop
      have hexec : exec i (.page p (.setVisibility visibility epoch)) _ = _ := hexec
      simp only [exec] at hexec
      split at hexec
      · rename_i hheld
        cases hexec
        refine .inl ⟨visibility, epoch, rfl, ?_, ?_, hheld⟩ <;>
          rw [setPage_pages, if_pos rfl] <;> rfl
      · cases hexec
    · rw [hop] at hlock
      cases hlock
    · rw [hop] at hunlock
      cases hunlock
    · rw [hop] at hchange
      cases hchange
      exact .inl ⟨visibility, epoch, hop, by rw [hpage]; rfl, by rw [hpage]; rfl, hheld⟩
  · have hop : ∀ visibility epoch, e.op ≠ .page p (.setVisibility visibility epoch) :=
      fun visibility epoch heq => hop ⟨visibility, epoch, heq⟩
    obtain ⟨hvisibility, hepoch⟩ := heffect.visibility_same hop
    exact .inr ⟨hvisibility, hepoch, hop⟩

/-- **Ownership of a page is only lost to a fracture.** -/
theorem owned_kept {o p : ℕ} : (system T env).Kept (Good T env) fun h =>
    Owned ((system T env).state h) o p := by
  intro e h _ hexec hgood howned
  rcases howned with howned | hfractured
  · rcases transition_or_same hexec with ⟨visibility, epoch, hop, hpost, -⟩ | ⟨hpost, -⟩
    · rcases (hgood.transition hop).detached o howned with hsame | hfractured
      · exact .inl (by rw [System.state_cons, hpost, hsame])
      · exact .inr ((effect_of_executes hexec).fractured_mono hfractured)
    · exact .inl (by rw [System.state_cons, hpost, howned])
  · exact .inr ((effect_of_executes hexec).fractured_mono hfractured)

/-- **The owner record of a layout, unless fractured, owns all pages of the range.** -/
theorem layout_owned (hlegal : (system T env).Legal (Good T env) h) {r o : ℕ}
    (howner : (((system T env).state h).layouts r).owner = some o) :
    ∀ p ∈ T.pages r, Owned ((system T env).state h) o p := by
  induction hlegal generalizing r o with
  | nil => cases howner
  | @cons e h hrest hexec hgood ih =>
    have howned : ∀ p ∈ T.pages r, Owned ((system T env).state h) o p := by
      rcases (effect_of_executes hexec).layout_owner howner with hbefore | hop
      · exact ih hbefore
      · obtain ⟨i, op, answer, post⟩ := e
        subst hop
        exact hgood
    exact fun p hp => owned_kept e h hrest hexec hgood (howned p hp)

/-- An unfractured record of a layout owns the pages of the range. -/
theorem owned_of_unfractured (hlegal : (system T env).Legal (Good T env) h) {r o : ℕ}
    (howner : (((system T env).state h).layouts r).owner = some o)
    (hwhole : ¬ Fractured ((system T env).state h) o) :
    ∀ p ∈ T.pages r, (((system T env).state h).pages p).visibility = .gpuNewer o :=
  fun p hp => (layout_owned hlegal howner p hp).resolve_right hwhole

/-- **A clean hint is true.** -/
theorem hint_clean (hlegal : (system T env).Legal (Good T env) h) {p : ℕ}
    (hhint : (((system T env).state h).pages p).hint = .clean) :
    (((system T env).state h).pages p).visibility = .clean := by
  induction hlegal with
  | nil => cases hhint
  | @cons e h hrest hexec hgood ih =>
    rw [System.state_cons] at hhint ⊢
    rcases transition_or_same hexec with ⟨visibility, epoch, hop, hpost, -⟩ | ⟨hpost, -, hop⟩
    · -- a transition leaves the hint alone, and away from clean it finds it withdrawn
      have hsame : (e.post.pages p).hint = (((system T env).state h).pages p).hint := by
        rcases (effect_of_executes hexec).page_cases p with hsame | ⟨hother, -⟩ | ⟨hother, -⟩ |
          ⟨change, hchange, -, hpage⟩
        · rw [hsame]
        · rw [hop] at hother
          cases hother
        · rw [hop] at hother
          cases hother
        · rw [hop] at hchange
          cases hchange
          rw [hpage]
          rfl
      by_contra hne
      rw [hpost] at hne
      exact (hgood.transition hop).hint hne (by rw [← hsame]; exact hhint)
    · rw [hpost]
      rcases (effect_of_executes hexec).page_cases p with hsame | ⟨-, -, hpage⟩ |
        ⟨-, -, hpage⟩ | ⟨change, hchange, -, hpage⟩
      · exact ih (by rw [← hsame]; exact hhint)
      · exact ih (by rw [hpage] at hhint; exact hhint)
      · exact ih (by rw [hpage] at hhint; exact hhint)
      · rw [hpage] at hhint
        obtain ⟨i, op, answer, post⟩ := e
        subst hchange
        cases change with
        | storeHint =>
          subst hhint
          exact hgood
        | setVisibility visibility epoch => exact absurd rfl (hop visibility epoch)
        | _ => exact ih hhint

/-- **Between a moment at which the CPU does not see a page and a later one at which it does,
a readback of the page is published.** -/
theorem read_back_between {t : Hist} (hlegal : (system T env).Legal (Good T env) (t ++ h)) {p : ℕ}
    (hbefore : (((system T env).state h).pages p).visibility.cpuVisible = false)
    (hafter : (((system T env).state (t ++ h)).pages p).visibility.cpuVisible = true) :
    ∃ t₁ e t₂ epoch, t = t₁ ++ e :: t₂ ∧ e.op = .page p (.setVisibility .clean epoch) ∧
      ReadBack p (t₂ ++ h) := by
  induction t with
  | nil =>
    rw [List.nil_append, hbefore] at hafter
    cases hafter
  | cons e t ih =>
    cases hlegal with
    | cons hrest hexec hgood =>
      by_cases hvisible : (((system T env).state (t ++ h)).pages p).visibility.cpuVisible = true
      · obtain ⟨t₁, e', t₂, epoch, rfl, hfound⟩ := ih hrest hvisible
        exact ⟨e :: t₁, e', t₂, epoch, rfl, hfound⟩
      · rcases transition_or_same hexec with ⟨visibility, epoch, hop, hpost, -⟩ | ⟨hpost, -⟩
        · rw [List.cons_append, System.state_cons, hpost] at hafter
          obtain ⟨rfl, hback⟩ :=
            ((hgood.transition hop).regained hafter).resolve_left hvisible
          exact ⟨[], e, t, epoch, rfl, hop, hback⟩
        · rw [List.cons_append, System.state_cons, hpost] at hafter
          exact absurd hafter hvisible

theorem Peaceful.of_cons (hpeace : Peaceful T env (e :: h)) : Peaceful T env h :=
  ⟨hpeace.oneDevice.2, hpeace.undisturbed.2⟩

theorem disturbed_kept : (system T env).Kept (Good T env) fun h => ¬ Peaceful T env h :=
  fun _ _ _ _ _ hdisturbed hpeace => hdisturbed hpeace.of_cons

theorem Published.cons {device point : ℕ} (hpublished : Published device point h) :
    Published device point (e :: h) := by
  obtain ⟨x, hx, hserves⟩ := hpublished
  refine ⟨x, ?_, hserves⟩
  obtain ⟨e', he', hpublication⟩ := List.mem_filterMap.1 hx
  exact List.mem_filterMap.2 ⟨e', List.mem_cons_of_mem _ he', hpublication⟩

/-- A good operation that creates or advances a record is for a point that was declared. -/
theorem Good.published (hgood : Good T env e h) (hpeace : Peaceful T env h) {device point : ℕ}
    (hop : e.op = .newOwner device point ∨ ∃ r declaration,
      e.op = .layout r (.advance declaration) ∧
      declaration.device = device ∧ declaration.cpuVisibleAt = some point) :
    Published device point h := by
  obtain ⟨i, op, answer, post⟩ := e
  rcases hop with rfl | ⟨r, declaration, rfl, rfl, hpoint⟩
  · exact hgood hpeace
  · exact hgood hpeace point hpoint

/-- **In a peaceful run** every owner record stands at a point that was declared, and no page
is conflicting. -/
theorem peaceful_state (hlegal : (system T env).Legal (Good T env) h) (hpeace : Peaceful T env h) :
    (∀ o owner, ((system T env).state h).owner? o = some owner →
      Published owner.device owner.point h) ∧
    ∀ p, (((system T env).state h).pages p).visibility ≠ .conflicting := by
  induction hlegal with
  | nil =>
    refine ⟨fun o owner howner => ?_, fun p hconflict => ?_⟩
    · exact absurd howner (by simp [Shared.owner?, System.state, system, fresh])
    · cases hconflict
  | @cons e h _ hexec hgood ih =>
    obtain ⟨hrecords, hpages⟩ := ih hpeace.of_cons
    refine ⟨fun o owner howner => ?_, fun p hconflict => ?_⟩
    · rcases (effect_of_executes hexec).owner_origin howner with
        ⟨old, hold, hdevice, hpoint⟩ | hnew | hadvance
      · rw [hdevice, hpoint]
        exact (hrecords o old hold).cons
      · exact (hgood.published hpeace.of_cons (.inl hnew)).cons
      · exact (hgood.published hpeace.of_cons (.inr hadvance)).cons
    · rcases transition_or_same hexec with ⟨visibility, epoch, hop, hvisibility, -⟩ |
        ⟨hsame, -⟩
      · rw [System.state_cons, hvisibility] at hconflict
        exact (hgood.transition hop).calm hconflict hpeace.of_cons
      · rw [System.state_cons, hsame] at hconflict
        exact hpages p hconflict

end Kept

end Nixe.Memory
