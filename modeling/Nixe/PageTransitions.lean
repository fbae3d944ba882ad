/-
**The transitions of a locked page keep the discipline.**

A thread that holds the mutex of a page knows the whole page, and nobody else can change it.  With
that knowledge each step of `set_visibility`, of the CPU write paths and of the device paths is a
good operation, and the specifications below say what the thread knows of the page when they return.

Main definitions:

* `Holds` — the thread holds the mutex of the page and knows it;
* `Notified` — all observers of the page have been told;
* `LocalTo` — operations of a transition of one page;
* `Admitted` — nothing stands against a transition of the page;
* `Authorized` — no device owns the page, unless the peace is broken;
* `Steady` — knowledge that lasts until the thread declares something for a device.

Main results:

* `setVisibility_sat` — **the specification of a transition**;
* `advanceCpuDirtyEpoch_sat`, `publishCpuDirty_sat` — the dirty epoch leaves the visibility alone
  unless it fails;
* `locked_sat`, `lockedAll_sat` — critical sections;
* `Safe` and its rules — programs of which only the good conduct is needed.
-/
import Nixe.PageRules

set_option autoImplicit false

namespace Nixe.Memory

open Interleaving

variable {T : Topology} {env : ℕ → Answer} {i p epoch : ℕ} {page : Page} {change : PageAct}
  {α ε : Type} {F P : Hist → Prop} {Q : α → Hist → Prop} {old new visibility : PageVisibility}
  {x : Thread (Except ε α)} {body : Thread α} {e : Event Shared Resp} {h : Hist}

/-! ### Operations of one page -/

/-- The operations of a transition of `p` to one of the visibilities `V`. -/
def LocalTo (p : ℕ) (V : PageVisibility → Prop) : Op → Prop
  | .page q change => q = p ∧ match change with
      | .read | .storeHint _ | .setArmed _ | .setDirtyEpoch _ => True
      | .setVisibility visibility _ => V visibility
      | _ => False
  | .bump q _ => q = p
  | .detach _ | .hostFails => True
  | _ => False

theorem LocalTo.mono {V W : PageVisibility → Prop} (hVW : ∀ visibility, V visibility → W visibility)
    (op : Op) (hop : LocalTo p V op) : LocalTo p W op := by
  cases op with
  | page q change =>
    refine ⟨hop.1, ?_⟩
    cases change with
    | setVisibility visibility => exact hVW visibility hop.2
    | _ => exact hop.2
  | _ => exact hop

variable (V : PageVisibility → Prop)

theorem readPage_local : (readPage p).Within (LocalTo p V) :=
  ⟨⟨rfl, trivial⟩, fun _ => trivial⟩

theorem hostFails_local : hostFails.Within (LocalTo p V) :=
  ⟨trivial, fun _ => trivial⟩

theorem notify_local : (notifyVisibilitySummaries p).Within (LocalTo p V) := by
  refine (readPage_local V).bind fun _ => .forEach (fun _ => ?_)
  exact ⟨rfl, fun _ => trivial⟩

theorem detachOwner_local (visibility : PageVisibility) :
    (detachOwner visibility).Within (LocalTo p V) := by
  cases visibility with
  | gpuNewer => exact ⟨trivial, fun _ => trivial⟩
  | _ => trivial

theorem aliasProtectionFails_local {old new : PageVisibility} :
    (aliasProtectionFails old new).Within (LocalTo p V) := by
  unfold aliasProtectionFails
  split
  · trivial
  · exact hostFails_local V

theorem setVisibility_local :
    (setVisibility p visibility).Within (LocalTo p fun v => v = visibility ∨ v = .invalid) := by
  refine (notify_local _).bind fun _ => (readPage_local _).bind fun page => ?_
  refine .bind ?_ fun _ => ?_
  · unfold detachUnlessKept
    split
    · trivial
    · exact detachOwner_local _ _
  refine ⟨⟨rfl, trivial⟩, fun _ => ?_⟩
  cases checkedAdd page.visibilityEpoch 1 with
  | none => exact (detachOwner_local _ _).bind fun _ => ⟨⟨rfl, .inr rfl⟩, fun _ => trivial⟩
  | some => exact ⟨⟨rfl, .inl rfl⟩, fun _ => ⟨⟨rfl, trivial⟩, fun _ => trivial⟩⟩

theorem publishVisibility_local : (publishVisibility p visibility).Within
      (LocalTo p fun v => v = visibility ∨ v = .invalid) := by
  refine (readPage_local _).bind fun _ => (aliasProtectionFails_local _).bind fun failed => ?_
  cases failed with
  | true =>
    refine .attempt (setVisibility_local.mono (LocalTo.mono fun v hv => ?_)) fun _ => trivial
    exact .inr (hv.elim id id)
  | false => exact setVisibility_local

theorem giveUp_local : (giveUp p page epoch).Within (LocalTo p fun v => v = .invalid) :=
  .bind ⟨⟨rfl, trivial⟩, fun _ => trivial⟩ fun _ =>
    (detachOwner_local _ _).bind fun _ => (notify_local _).bind fun _ =>
      ⟨⟨rfl, rfl⟩, fun _ => trivial⟩

theorem revokeDirectAccess_local :
    (revokeDirectAccess p page).Within (LocalTo p fun v => v = .invalid) := by
  refine (aliasProtectionFails_local _).bind fun failed => ?_
  cases failed with
  | true => exact giveUp_local.bind fun _ => trivial
  | false =>
    refine ⟨⟨rfl, trivial⟩, fun _ => ?_⟩
    cases checkedAdd page.visibilityEpoch 1 with
    | none => exact giveUp_local.bind fun _ => trivial
    | some => trivial

theorem advanceCpuDirtyEpoch_local :
    (advanceCpuDirtyEpoch p).Within (LocalTo p fun v => v = .invalid) := by
  refine (readPage_local _).bind fun page => ?_
  split
  · cases checkedAdd page.dirtyEpoch 1 with
    | none =>
      refine .attempt ?_ fun next => giveUp_local.bind fun _ => trivial
      exact revokeDirectAccess_local.bind fun _ => trivial
    | some => exact ⟨⟨rfl, trivial⟩, fun _ => trivial⟩
  · trivial

theorem publishCpuDirty_local : (publishCpuDirty p).Within (LocalTo p fun v => v = .invalid) := by
  refine (readPage_local _).bind fun page => ?_
  split
  · exact advanceCpuDirtyEpoch_local.attempt fun _ =>
      ⟨⟨rfl, trivial⟩, fun _ => (hostFails_local _).bind fun _ => trivial⟩
  · trivial

/-- The annotated programs of a thread of the system. -/
abbrev Ensures {α : Type} (T : Topology) (env : ℕ → Answer) (i : ℕ) (x : Thread α)
    (P : Hist → Prop) (Q : α → Hist → Prop) : Prop :=
  (system T env).Sat (Good T env) i x P Q

/-- The thread holds the mutex of the page, and the page is this one. -/
def Holds (T : Topology) (env : ℕ → Answer) (i p : ℕ) (page : Page) (h : Hist) : Prop :=
  ((system T env).state h).pages p = page ∧ page.lock = some i

/-- The thread holds the mutex of the page. -/
def Locked (T : Topology) (env : ℕ → Answer) (i p : ℕ) (h : Hist) : Prop :=
  ∃ page, Holds T env i p page h

/-- The thread holds the mutex of a page that the CPU may write. -/
def HoldsVisible (T : Topology) (env : ℕ → Answer) (i p : ℕ) (h : Hist) : Prop :=
  ∃ page, Holds T env i p page h ∧ page.visibility.cpuVisible = true

/-- A call that succeeds leaves the page to the CPU. -/
abbrev VisibleIfOk (T : Topology) (env : ℕ → Answer) (i p : ℕ) : Except ε α → Hist → Prop :=
  System.onResult (fun _ => HoldsVisible T env i p) fun _ => True

/-- The observers of the page have been told, and the page has not changed since. -/
def Notified (T : Topology) (env : ℕ → Answer) (i p : ℕ) (page : Page) (h : Hist) : Prop :=
  Holds T env i p page h ∧ ∀ n ∈ page.summaries, Pending p n h

/-- The owner record of the page is fractured. -/
def Detached (T : Topology) (env : ℕ → Answer) (visibility : PageVisibility) (h : Hist) :
    Prop :=
  ∀ o, visibility = .gpuNewer o → Fractured ((system T env).state h) o

/-! ### Knowledge that survives -/

theorem holds_stable {G : Event Shared Resp → Hist → Prop} :
    (system T env).Stable G i (Holds T env i p page) := by
  intro e h _ hexec _ hne hholds
  obtain ⟨rfl, hlock⟩ := hholds
  exact ⟨(effect_of_executes hexec).page_of_locked hlock hne, hlock⟩

/-- The event neither changes the visibility of the page nor releases it. -/
def Retains (p : ℕ) (op : Op) : Prop :=
  (∀ visibility epoch, op ≠ .page p (.setVisibility visibility epoch)) ∧ op ≠ .unlockPage p

/-- Whoever changes or releases a page holds its mutex. -/
theorem retains_of_locked (hexec : (system T env).Executes e h)
    (hlock : (((system T env).state h).pages p).lock = some i) (hne : e.thread ≠ i) :
    Retains p e.op := by
  have hafter := after_of_exec hexec
  have hheld : (((system T env).state h).pages p).lock ≠ some e.thread := by
    rw [hlock]
    exact fun hsame => hne (Option.some.inj hsame).symm
  constructor
  · rintro visibility epoch hop
    rw [hop] at hafter
    exact hheld (of_guarded hafter).1
  · intro hop
    rw [hop] at hafter
    exact hheld (of_guarded hafter).1

theorem retains_of_local (hop : LocalTo p (fun _ => False) e.op) : Retains p e.op := by
  constructor
  · rintro visibility epoch heq
    rw [heq] at hop
    exact hop.2
  · intro heq
    rw [heq] at hop
    exact hop

theorem Pending.cons {n : ℕ} (hop : Retains p e.op) (hpending : Pending p n h) :
    Pending p n (e :: h) := by
  obtain ⟨j, op, answer, post⟩ := e
  cases op with
  | bump => exact .inr hpending
  | unlockPage q => exact ⟨fun hq => hop.2 (congrArg _ hq), hpending⟩
  | page q change =>
    cases change with
    | setVisibility visibility epoch =>
      exact ⟨fun hq => hop.1 visibility epoch (by rw [hq]), hpending⟩
    | _ => exact hpending
  | _ => exact hpending

theorem ReadBack.cons (hop : ∀ o epoch, e.op ≠ .page p (.setVisibility (.gpuNewer o) epoch))
    (hback : ReadBack p h) : ReadBack p (e :: h) := by
  obtain ⟨j, op, answer, post⟩ := e
  cases op with
  | page q change =>
    cases change with
    | storeReadback => exact .inr hback
    | setVisibility visibility epoch =>
      cases visibility with
      | gpuNewer o => exact ⟨fun hq => hop o epoch (by rw [hq]), hback⟩
      | _ => exact hback
    | _ => exact hback
  | _ => exact hback

theorem notified_stable : (system T env).Stable (Good T env) i (Notified T env i p page) := by
  intro e h hlegal hexec hgood hne hnotified
  obtain ⟨hholds, hpending⟩ := hnotified
  refine ⟨holds_stable e h hlegal hexec hgood hne hholds, fun n hn => ?_⟩
  exact (hpending n hn).cons (retains_of_locked hexec (by rw [hholds.1]; exact hholds.2) hne)

theorem detached_kept (visibility : PageVisibility) :
    (system T env).Kept (Good T env) (Detached T env visibility) :=
  .forall fun _ => .imp fractured_kept

theorem PageAct.run_lock (page : Page) (change : PageAct) :
    (change.run page).2.lock = page.lock := by
  cases change <;> rfl

/-! ### Operations on a locked page -/

/-- An operation on a page gives the mutex away: it could only be performed by its holder. -/
theorem exec_onPage {h : Hist} {answer : Resp (.page p change)} {s : Shared}
    (hexec : exec i (.page p change) ((system T env).state h) = some (answer, s)) :
    (((system T env).state h).pages p).lock = some i ∧
      answer = (change.run (((system T env).state h).pages p)).1 ∧
      s.pages p = (change.run (((system T env).state h).pages p)).2 := by
  simp only [exec] at hexec
  split at hexec
  · rename_i hheld
    cases hexec
    exact ⟨hheld, rfl, by rw [setPage_pages, if_pos rfl]⟩
  · cases hexec

/-- A program that starts with an operation on a page may take it for locked. -/
theorem of_locked {next : change.Resp → Thread α}
    (hp : Ensures T env i (.step (.page p change) next) (fun h => Locked T env i p h ∧ F h) Q) :
    Ensures T env i (.step (.page p change) next) F Q := by
  intro h answer s hlegal hF hexec
  exact hp h answer s hlegal ⟨⟨_, rfl, (exec_onPage hexec).1⟩, hF⟩ hexec

/-- **An operation on a known page.** -/
theorem onPage_sat (change : PageAct) (hgood : ∀ h s, Holds T env i p page h →
      Good T env ⟨i, .page p change, (change.run page).1, s⟩ h) :
    Ensures T env i (onPage p change) (Holds T env i p page)
      fun _ => Holds T env i p (change.run page).2 := by
  refine .perform (fun _ => holds_stable) fun h answer s _ hholds hexec => ?_
  obtain ⟨hlock, rfl, hpage⟩ := exec_onPage hexec
  obtain ⟨rfl, -⟩ := hholds
  exact ⟨hgood h s ⟨rfl, hlock⟩, hpage, by rw [PageAct.run_lock, hlock]⟩

theorem readPage_sat : Ensures T env i (readPage p) (Holds T env i p page)
    fun read h => read = page ∧ Holds T env i p page h := by
  refine .perform (fun read => ?_) fun h answer s _ hholds hexec => ?_
  · exact fun e h hlegal hexec hgood hne hboth =>
      ⟨hboth.1, holds_stable e h hlegal hexec hgood hne hboth.2⟩
  · obtain ⟨hlock, rfl, hpage⟩ := exec_onPage hexec
    obtain ⟨rfl, -⟩ := hholds
    exact ⟨trivial, rfl, hpage, hlock⟩

theorem readPage_known {f : Page → Thread α}
    (hf : Ensures T env i (f page) (Holds T env i p page) Q) :
    Ensures T env i ((readPage p).bind f) (Holds T env i p page) Q := by
  refine readPage_sat.bind fun read => .given ?_
  rintro rfl
  exact hf

/-- Whoever can read a page holds its mutex and then knows it. -/
theorem readPage_any : Ensures T env i (readPage p) (fun _ => True)
    fun read => Holds T env i p read := by
  refine .perform (fun read => holds_stable) fun h answer s _ _ hexec => ?_
  obtain ⟨hlock, rfl, hpage⟩ := exec_onPage hexec
  exact ⟨trivial, hpage, hlock⟩

theorem readPage_notified : Ensures T env i (readPage p) (Notified T env i p page)
    fun read h => read = page ∧ Notified T env i p page h := by
  refine .perform (fun read => ?_) fun h answer s _ hnotified hexec => ?_
  · exact fun e h hlegal hexec hgood hne hboth =>
      ⟨hboth.1, notified_stable e h hlegal hexec hgood hne hboth.2⟩
  · obtain ⟨hlock, rfl, hpage⟩ := exec_onPage hexec
    obtain ⟨⟨rfl, -⟩, hpending⟩ := hnotified
    exact ⟨trivial, rfl, ⟨hpage, hlock⟩, hpending⟩

/-- Withdrawing the hint keeps what was notified. -/
theorem withdrawHint_notified (hF : (system T env).Kept (Good T env) F) :
    Ensures T env i (onPage p (.storeHint .unavailable)) (fun h => Notified T env i p page h ∧ F h)
      fun _ h => Notified T env i p { page with hint := .unavailable } h ∧ F h := by
  refine .frame hF ?_
  refine .perform (fun _ => notified_stable) fun h answer s _ hnotified hexec => ?_
  obtain ⟨hlock, rfl, hpage⟩ := exec_onPage hexec
  obtain ⟨⟨rfl, -⟩, hpending⟩ := hnotified
  exact ⟨trivial, ⟨hpage, hlock⟩, hpending⟩

/-! ### Notifying and detaching -/

theorem bump_sat (n : ℕ) (ns : List ℕ) : Ensures T env i (act (.bump p n))
      (fun h => Holds T env i p page h ∧ ∀ m ∈ page.summaries, m ∈ n :: ns ∨ Pending p m h)
      fun _ h => Holds T env i p page h ∧ ∀ m ∈ page.summaries, m ∈ ns ∨ Pending p m h := by
  refine .perform (fun _ e h hlegal hexec hgood hne hknown => ?_)
    fun h answer s _ hknown hexec => ?_
  · obtain ⟨hholds, htold⟩ := hknown
    refine ⟨holds_stable e h hlegal hexec hgood hne hholds, fun m hm => ?_⟩
    exact (htold m hm).imp_right
      (.cons (retains_of_locked hexec (by rw [hholds.1]; exact hholds.2) hne))
  · obtain ⟨⟨hpage, hlock⟩, htold⟩ := hknown
    refine ⟨trivial, ⟨?_, hlock⟩, fun m hm => ?_⟩
    · have hexec : exec i (.bump p n) ((system T env).state h) = some (answer, s) := hexec
      simp only [exec] at hexec
      split at hexec <;> cases hexec
      exact hpage
    · rcases htold m hm with hleft | hpending
      · rcases List.mem_cons.1 hleft with rfl | hleft
        · exact .inr (.inl ⟨rfl, rfl⟩)
        · exact .inl hleft
      · exact .inr (.inr hpending)

/-- **After the notification all observers are told.** -/
theorem notifyVisibilitySummaries_sat :
    Ensures T env i (notifyVisibilitySummaries p) (Holds T env i p page)
      fun _ => Notified T env i p page := by
  refine readPage_sat.bind fun read => ?_
  refine .imp (.forEach (I := fun ns h => Holds T env i p page h ∧
      ∀ m ∈ page.summaries, m ∈ ns ∨ Pending p m h) bump_sat read.summaries) ?_ ?_
  · rintro h - ⟨rfl, hholds⟩
    exact ⟨hholds, fun m => .inl⟩
  · rintro _ h - ⟨hholds, htold⟩
    exact ⟨hholds, fun m hm => (htold m hm).resolve_left (List.not_mem_nil)⟩

/-- Knowledge that survives the other threads and the thread's own detachments. -/
def SurvivesDetach (T : Topology) (env : ℕ → Answer) (i : ℕ) (P : Hist → Prop) : Prop :=
  (system T env).Stable (Good T env) i P ∧
    ∀ o h s, exec i (.detach o) ((system T env).state h) = some ((), s) → P h →
      P (⟨i, .detach o, (), s⟩ :: h)

theorem exec_detach {o : ℕ} {s s' : Shared} (h : exec i (.detach o) s = some ((), s')) :
    s'.pages = s.pages ∧ Fractured s' o := by
  simp only [exec, Option.map_eq_some_iff] at h
  obtain ⟨owner, hrecord, hpair⟩ := h
  cases hpair
  exact ⟨rfl, { owner with fractured := true }, by rw [setOwner_owner? hrecord, if_pos rfl], rfl⟩

theorem holds_survives (i p : ℕ) (page : Page) : SurvivesDetach T env i (Holds T env i p page) :=
  ⟨holds_stable, fun _ _ _ hexec hholds =>
    ⟨by rw [System.state_cons, (exec_detach hexec).1]; exact hholds.1, hholds.2⟩⟩

theorem notified_survives (i p : ℕ) (page : Page) :
    SurvivesDetach T env i (Notified T env i p page) :=
  ⟨notified_stable, fun o h s hexec hnotified =>
    ⟨(holds_survives i p page).2 o h s hexec hnotified.1, hnotified.2⟩⟩

theorem detach_sat (hP : SurvivesDetach T env i P) {o : ℕ} : Ensures T env i (act (.detach o)) P
      fun _ h => P h ∧ Fractured ((system T env).state h) o := by
  refine .perform (fun _ => hP.1.and (fractured_kept.stable)) fun h answer s _ hknown hexec => ?_
  have hexec : exec i (.detach o) ((system T env).state h) = some ((), s) := hexec
  exact ⟨trivial, hP.2 o h s hexec hknown, (exec_detach hexec).2⟩

theorem detachOwner_sat (hP : SurvivesDetach T env i P) (visibility : PageVisibility) :
    Ensures T env i (detachOwner visibility) P fun _ h => P h ∧ Detached T env visibility h := by
  cases visibility with
  | gpuNewer =>
    refine (detach_sat hP).post fun _ h _ hboth => ⟨hboth.1, ?_⟩
    rintro _ ⟨rfl⟩
    exact hboth.2
  | _ => exact fun h _ hknown => ⟨hknown, nofun⟩

theorem detachUnlessKept_sat :
    Ensures T env i (detachUnlessKept old new) (Notified T env i p page)
      fun _ h => Notified T env i p page h ∧ (old ≠ new → Detached T env old h) := by
  unfold detachUnlessKept
  split
  · rename_i hkept
    exact fun h _ hnotified => ⟨hnotified, (absurd hkept.2)⟩
  · exact (detachOwner_sat (notified_survives i p page) old).post
      fun _ h _ hboth => ⟨hboth.1, fun _ => hboth.2⟩

/-! ### A transition -/

/-- Nothing stands against a transition of the locked page: it becomes conflicting only if the
peace is broken, and the CPU's only from the CPU's hands or with the bytes of a readback. -/
structure Admitted (T : Topology) (env : ℕ → Answer) (i p : ℕ) (old visibility : PageVisibility)
    (h : Hist) : Prop where
  locked : (((system T env).state h).pages p).lock = some i
  calm : visibility = .conflicting → ¬ Peaceful T env h
  regained : visibility.cpuVisible = true → old.cpuVisible = true ∨
    visibility = .clean ∧ ReadBack p h

/-- Whatever retains the page leaves the transition admitted. -/
theorem Admitted.cons (hadmitted : Admitted T env i p old visibility h) (hop : Retains p e.op)
    (hlock : (e.post.pages p).lock = some i) : Admitted T env i p old visibility (e :: h) := by
  refine ⟨hlock, fun hconflict hpeace => hadmitted.calm hconflict hpeace.of_cons,
    fun hvisible => ?_⟩
  exact (hadmitted.regained hvisible).imp_right fun hback =>
    ⟨hback.1, hback.2.cons fun o epoch => hop.1 _ epoch⟩

/-- Preparing a transition leaves it admitted. -/
theorem admitted_frame {x : Thread α} (hwithin : x.Within (LocalTo p fun _ => False))
    (hx : Ensures T env i x P Q) :
    Ensures T env i x (fun h => P h ∧ Admitted T env i p old visibility h)
      fun a h => Q a h ∧ Admitted T env i p old visibility h := by
  refine .frameWithin (fun e h _ hexec _ hne hadmitted => ?_)
    (fun e h _ hexec _ hthread hop hadmitted => ?_) hwithin hx
  · refine hadmitted.cons (retains_of_locked hexec hadmitted.locked hne) ?_
    rw [(effect_of_executes hexec).page_of_locked hadmitted.locked hne]
    exact hadmitted.locked
  · refine hadmitted.cons (retains_of_local hop) ?_
    rcases (effect_of_executes hexec).page_cases p with hsame | ⟨-, -, hpage⟩ |
      ⟨hunlock, -⟩ | ⟨change, -, -, hpage⟩
    · rw [hsame]
      exact hadmitted.locked
    · rw [hpage, hthread]
    · rw [hunlock] at hop
      exact hop.elim
    · rw [hpage, PageAct.run_lock]
      exact hadmitted.locked

/-- A transition that makes the page nobody's conflict and not the CPU's. -/
def Hides (visibility : PageVisibility) : Prop :=
  visibility ≠ .conflicting ∧ visibility.cpuVisible = false

theorem hides_invalid : Hides .invalid := ⟨by simp, rfl⟩

theorem hides_gpuNewer (o : ℕ) : Hides (.gpuNewer o) := ⟨by simp, rfl⟩

theorem Holds.admitted (hholds : Holds T env i p page h) (hhides : Hides visibility) :
    Admitted T env i p old visibility h := by
  refine ⟨by rw [hholds.1]; exact hholds.2, fun hconflict => absurd hconflict hhides.1, ?_⟩
  rw [hhides.2]
  exact fun hvisible => Bool.noConfusion hvisible

/-- A page in the CPU's hands may go to another of the CPU's states. -/
theorem Holds.admitted_visible (hholds : Holds T env i p page h) (hold : old.cpuVisible = true)
    (hne : visibility ≠ .conflicting) : Admitted T env i p old visibility h :=
  ⟨by rw [hholds.1]; exact hholds.2, fun hconflict => absurd hconflict hne, fun _ => .inl hold⟩

/-- A transition that gives the page up is admitted where any other is. -/
theorem Admitted.invalid (hadmitted : Admitted T env i p old visibility h) :
    Admitted T env i p old .invalid h :=
  ⟨hadmitted.locked, fun hconflict => (by cases hconflict), fun hvisible => (by cases hvisible)⟩

/-- What a page is after a transition. -/
def Page.moved (page : Page) (visibility : PageVisibility) : Page :=
  { page with
    visibility := visibility
    visibilityEpoch := page.visibilityEpoch + 1
    hint := CpuVisibilityHint.forState visibility }

/-- What a page is when it has no further epoch. -/
def Page.exhausted (page : Page) : Page :=
  { page with visibility := .invalid, hint := .unavailable }

/-- The store of a transition whose hint is withdrawn, whose observers are told and whose
owner record is detached. -/
theorem storeTransition_sat (page : Page) (hhint : page.hint ≠ .clean)
    (hle : page.visibilityEpoch ≤ epoch)
    (hkept : epoch = page.visibilityEpoch → page.visibility.cpuVisible = true ∨
      visibility = .invalid ∧ (page.visibility.gpuOwned = true → u64Max ≤ epoch)) :
    Ensures T env i (onPage p (.setVisibility visibility epoch))
      (fun h => (Notified T env i p page h ∧
        (page.visibility ≠ visibility → Detached T env page.visibility h)) ∧
        Admitted T env i p page.visibility visibility h)
      fun _ => Holds T env i p
        { page with visibility := visibility, visibilityEpoch := epoch } := by
  refine .perform (fun _ => holds_stable) fun h answer s _ hknown hexec => ?_
  obtain ⟨hlock, rfl, hpage⟩ := exec_onPage hexec
  obtain ⟨⟨⟨⟨rfl, -⟩, hpending⟩, hdetached⟩, hadmitted⟩ := hknown
  refine ⟨⟨fun o ho => ?_, hle, hkept, fun _ => hhint, fun _ _ => hpending, hadmitted.calm,
    hadmitted.regained⟩, hpage, hlock⟩
  by_cases hsame : visibility = .gpuNewer o
  · exact .inl hsame
  · exact .inr (hdetached (by rw [ho]; exact .symm hsame) o ho)

theorem detachUnlessKept_local : (detachUnlessKept old new).Within (LocalTo p fun _ => False) := by
  unfold detachUnlessKept
  split
  · trivial
  · exact detachOwner_local _ _

/-- **The specification of `set_visibility`.** -/
theorem setVisibility_sat : Ensures T env i (setVisibility p visibility)
      (fun h => Holds T env i p page h ∧ Admitted T env i p page.visibility visibility h)
      (System.onResult (fun _ => Holds T env i p (page.moved visibility))
        (Holds T env i p page.exhausted)) := by
  refine (admitted_frame (notify_local _) notifyVisibilitySummaries_sat).bind fun _ => ?_
  refine (admitted_frame (readPage_local _) readPage_notified).bind fun read => ?_
  refine .pre (.given ?_) fun h _ hknown => and_assoc.1 hknown
  rintro rfl
  refine (admitted_frame detachUnlessKept_local detachUnlessKept_sat).bind fun _ => ?_
  refine .bind (admitted_frame ⟨⟨rfl, trivial⟩, fun _ => trivial⟩
    (withdrawHint_notified (.imp (detached_kept _)))) fun _ => ?_
  cases hepoch : checkedAdd read.visibilityEpoch 1 with
  | none =>
    have hlimit : u64Max ≤ read.visibilityEpoch := by
      rw [checkedAdd_eq_none] at hepoch
      omega
    refine .bind (.pre (admitted_frame (detachOwner_local _ _) (detachOwner_sat
      (notified_survives i p _) read.visibility)) fun h _ hboth => ⟨hboth.1.1, hboth.2.invalid⟩)
      fun _ => ?_
    refine .bind (.pre (storeTransition_sat { read with hint := .unavailable } (by simp) le_rfl
      fun _ => .inr ⟨rfl, fun _ => hlimit⟩)
      fun h _ hboth => ⟨⟨hboth.1.1, fun _ => hboth.1.2⟩, hboth.2⟩) fun _ => ?_
    exact fun h _ hholds => hholds
  | some =>
    obtain ⟨rfl, -⟩ := checkedAdd_eq_some.1 hepoch
    refine .bind (storeTransition_sat { read with hint := .unavailable }
      (by simp) (by simp) fun hsame => absurd hsame (by simp)) fun _ => ?_
    refine .bind (onPage_sat _ fun h s hholds => ?_) fun _ => ?_
    · cases visibility with
      | clean => exact congrArg Page.visibility hholds.1
      | _ => trivial
    · exact fun h _ hholds => hholds

/-- The page is locked and has this visibility. -/
def HasVisibility (T : Topology) (env : ℕ → Answer) (i p : ℕ) (visibility : PageVisibility)
    (h : Hist) : Prop :=
  ∃ page, Holds T env i p page h ∧ page.visibility = visibility

theorem setVisibility_any (hhides : Hides visibility) :
    Ensures T env i (setVisibility p visibility) (fun _ => True)
      (System.onResult (fun _ => HasVisibility T env i p visibility)
        (HasVisibility T env i p .invalid)) := by
  refine of_locked (.pre (.exists fun page => ?_) fun h _ hlocked => hlocked.1)
  refine setVisibility_sat.imp (fun h _ hholds => ⟨hholds, hholds.admitted hhides⟩)
    fun result h _ hpost => ?_
  cases result with
  | error | ok _ => exact ⟨_, hpost, rfl⟩

/-! ### Operations that leave the pages alone -/

/-- An operation without an obligation that leaves the pages alone. -/
theorem perform_holds {op : Op} (hgood : ∀ answer s h, Good T env ⟨i, op, answer, s⟩ h)
    (hsame : ∀ answer s s', exec i op s = some (answer, s') → s'.pages = s.pages) :
    Ensures T env i (perform op) (Holds T env i p page) fun _ => Holds T env i p page := by
  refine .perform (fun _ => holds_stable) fun h answer s _ hholds hexec => ?_
  refine ⟨hgood answer s h, ?_, hholds.2⟩
  rw [System.state_cons, hsame answer _ s hexec]
  exact hholds.1

theorem hostFails_holds : Ensures T env i hostFails (Holds T env i p page)
    fun _ => Holds T env i p page :=
  perform_holds (fun _ _ _ => trivial) fun _ _ _ hexec => by cases hexec; rfl

theorem aliasProtectionFails_sat :
    Ensures T env i (aliasProtectionFails old new) (Holds T env i p page)
      fun failed h => (failed = true → (old.gpuOwned && !new.cpuVisible) = false) ∧
        Holds T env i p page h := by
  unfold aliasProtectionFails
  split
  · exact fun h _ hholds => ⟨nofun, hholds⟩
  · rename_i hopen
    exact hostFails_holds.post fun _ h _ hholds =>
      ⟨fun _ => Bool.eq_false_of_not_eq_true hopen, hholds⟩

/-- The page is locked, with the visibility, the epoch and the hint of this one. -/
def HoldsLike (T : Topology) (env : ℕ → Answer) (i p : ℕ) (page : Page) (h : Hist) : Prop :=
  ∃ read, Holds T env i p read h ∧ read.visibility = page.visibility ∧
    read.visibilityEpoch = page.visibilityEpoch ∧ read.hint = page.hint

/-! ### Transitions with alias protection -/

/-- **The specification of `publish_visibility`.** -/
theorem publishVisibility_sat : Ensures T env i (publishVisibility p visibility)
      (fun h => Holds T env i p page h ∧ Admitted T env i p page.visibility visibility h)
      (System.onResult (fun _ => HasVisibility T env i p visibility)
        (HasVisibility T env i p .invalid)) := by
  refine (admitted_frame (readPage_local _) readPage_sat).bind fun read => ?_
  refine .pre (.given ?_) fun h _ hknown => and_assoc.1 hknown
  rintro rfl
  refine (admitted_frame (aliasProtectionFails_local _) aliasProtectionFails_sat).bind
    fun failed => ?_
  refine .pre (.given fun _ => ?_) fun h _ hknown => and_assoc.1 hknown
  cases failed with
  | true =>
    refine .attempt (setVisibility_sat.pre fun h _ hboth => ⟨hboth.1, hboth.2.invalid⟩)
      (fun e h _ hpost => ⟨_, hpost, rfl⟩) fun _ => ?_
    exact fun h _ hholds => ⟨_, hholds, rfl⟩
  | false =>
    refine setVisibility_sat.post fun result h _ hpost => ?_
    cases result with
    | error | ok _ => exact ⟨_, hpost, rfl⟩

theorem publishVisibility_any (hhides : Hides visibility) :
    Ensures T env i (publishVisibility p visibility) (fun _ => True)
      (System.onResult (fun _ => HasVisibility T env i p visibility)
        (HasVisibility T env i p .invalid)) :=
  of_locked (.pre (.exists fun page => publishVisibility_sat.pre fun _ _
    (hholds : Holds T env i p page _) => ⟨hholds, hholds.admitted hhides⟩)
    fun _ _ hlocked => hlocked.1)

/-- Giving a page up: the page that was read may have lost its hint since. -/
theorem giveUp_sat (page : Page) (hint : CpuVisibilityHint) (hle : page.visibilityEpoch ≤ epoch)
    (hkept : epoch = page.visibilityEpoch → page.visibility.gpuOwned = true → u64Max ≤ epoch) :
    Ensures T env i (giveUp p page epoch) (Holds T env i p { page with hint := hint })
      fun _ => HasVisibility T env i p .invalid := by
  refine (onPage_sat (.storeHint .unavailable) fun _ _ _ => trivial).bind fun _ => ?_
  refine (detachOwner_sat (holds_survives i p _) page.visibility).bind fun _ => ?_
  refine (notifyVisibilitySummaries_sat.frame (detached_kept _)).bind fun _ => ?_
  refine .imp (storeTransition_sat { page with hint := .unavailable } (by simp) hle
    fun hsame => .inr ⟨rfl, hkept hsame⟩) (fun h _ hboth => ⟨⟨hboth.1, fun _ => hboth.2⟩,
      hboth.1.1.admitted hides_invalid⟩) fun _ h _ hholds => ⟨_, hholds, rfl⟩

/-- **The specification of `revoke_direct_access`.** -/
theorem revokeDirectAccess_sat : Ensures T env i (revokeDirectAccess p page) (Holds T env i p page)
      (System.onResult (fun next h => next = page.visibilityEpoch + 1 ∧
          Holds T env i p { page with hint := .unavailable } h)
        (HasVisibility T env i p .invalid)) := by
  refine aliasProtectionFails_sat.bind fun failed =>
    .given fun hfailed => ?_
  cases failed with
  | true =>
    have hopen : page.visibility.gpuOwned = false := by
      simpa [PageVisibility.cpuVisible] using hfailed rfl
    refine .bind (giveUp_sat page page.hint le_rfl fun _ howned => ?_) fun _ => ?_
    · rw [hopen] at howned
      cases howned
    · exact fun h _ hgone => hgone
  | false =>
    refine (onPage_sat (.storeHint .unavailable) fun _ _ _ => trivial).bind fun _ => ?_
    cases hepoch : checkedAdd page.visibilityEpoch 1 with
    | none =>
      rw [checkedAdd_eq_none] at hepoch
      refine .bind (giveUp_sat page .unavailable le_rfl fun _ _ => by omega) fun _ => ?_
      exact fun h _ hgone => hgone
    | some =>
      obtain ⟨rfl, -⟩ := checkedAdd_eq_some.1 hepoch
      exact fun h _ hholds => ⟨rfl, hholds⟩

/-- Errors of an inner call are reported under another name. -/
theorem mapError_sat {ε' : Type} {f : ε → ε'} {L : Hist → Prop}
    (hx : Ensures T env i x P (System.onResult Q L)) :
    Ensures T env i (x.bind fun result => .done (result.mapError f)) P (System.onResult Q L) := by
  refine hx.bind fun result => ?_
  cases result <;> exact fun h _ hpost => hpost

/-- **The dirty epoch leaves the visibility alone**, or the page is given up. -/
theorem advanceCpuDirtyEpoch_sat (page : Page) :
    Ensures T env i (advanceCpuDirtyEpoch p) (Holds T env i p page)
      (System.onResult (fun _ => HoldsLike T env i p page) (HasVisibility T env i p .invalid)) := by
  refine readPage_known ?_
  split
  · cases checkedAdd page.dirtyEpoch 1 with
    | none =>
      refine .attempt (mapError_sat revokeDirectAccess_sat)
        (fun _ _ _ hgone => hgone) fun next => ?_
      refine .given ?_
      rintro rfl
      refine .bind (giveUp_sat page .unavailable (by simp)
        fun hsame => absurd hsame (by simp)) fun _ => ?_
      exact fun h _ hgone => hgone
    | some next =>
      refine (onPage_sat (.setDirtyEpoch next) fun _ _ _ => trivial).bind fun _ => ?_
      exact fun h _ hholds => ⟨_, hholds, rfl, rfl, rfl⟩
  · exact fun h _ hholds => ⟨page, hholds, rfl, rfl, rfl⟩

/-- **The publication of a CPU write leaves the visibility alone**, or the page is given up. -/
theorem publishCpuDirty_sat : Ensures T env i (publishCpuDirty p) (Holds T env i p page)
      (System.onResult (fun _ => HoldsLike T env i p page) fun h =>
        HasVisibility T env i p .invalid h ∨ HoldsLike T env i p page h) := by
  refine readPage_known ?_
  split
  · refine .attempt (advanceCpuDirtyEpoch_sat page) (fun _ _ _ => .inl)
      fun _ => .exists_given fun moved hsame => ?_
    refine (onPage_sat (.setArmed false) fun _ _ _ => trivial).bind fun _ => ?_
    refine hostFails_holds.bind fun failed => ?_
    cases failed with
    | true => exact fun h _ hholds => .inr ⟨_, hholds, hsame⟩
    | false => exact fun h _ hholds => ⟨_, hholds, hsame⟩
  · exact fun h _ hholds => ⟨page, hholds, rfl, rfl, rfl⟩

/-! ### Refusals of the host and of the counters -/

/-- What a transition fails with that the host or a counter does not permit. -/
def Refusal (error : VisibilityError) : Prop :=
  error = .hostMemory ∨ error = .visibilityEpochExhausted ∨ error = .cpuDirtyEpochExhausted

/-- The errors of a call are refusals. -/
def Refuses (f : ε → VisibilityError) (result : Except ε α) : Prop :=
  ∀ error, result = .error error → Refusal (f error)

theorem refuses_ok {f : ε → VisibilityError} (a : α) : Refuses f (.ok a) :=
  fun _ herror => by cases herror

theorem refuses_error {f : ε → VisibilityError} {error : ε} (herror : Refusal (f error)) :
    Refuses f (.error error : Except ε α) := by
  rintro _ ⟨rfl⟩
  exact herror

theorem setVisibility_answers : (setVisibility p visibility).Answers (Refuses id) := by
  refine .last fun _ => .last fun page => .last fun _ => .last fun _ => ?_
  cases checkedAdd page.visibilityEpoch 1 with
  | none => exact .last fun _ => .last fun _ => refuses_error (.inr (.inl rfl))
  | some => exact .last fun _ => .last fun _ => refuses_ok ()

theorem publishVisibility_answers : (publishVisibility p visibility).Answers (Refuses id) := by
  refine .last fun page => .last fun failed => ?_
  split
  · exact setVisibility_answers.attempt (fun error herror => refuses_error (herror error rfl))
      fun _ => refuses_error (.inl rfl)
  · exact setVisibility_answers

theorem revokeDirectAccess_answers : (revokeDirectAccess p page).Answers (Refuses id) := by
  refine .last fun failed => ?_
  split
  · exact .last fun _ => refuses_error (.inl rfl)
  · refine .last fun _ => ?_
    cases checkedAdd page.visibilityEpoch 1 with
    | none => exact .last fun _ => refuses_error (.inr (.inl rfl))
    | some => exact refuses_ok _

theorem advanceCpuDirtyEpoch_answers : (advanceCpuDirtyEpoch p).Answers (Refuses dirtyError) := by
  refine .last fun page => ?_
  split
  · cases checkedAdd page.dirtyEpoch 1 with
    | none =>
      refine .attempt (S := Refuses dirtyError) (revokeDirectAccess_answers.bind
        fun result hresult => ?_) (fun error herror => refuses_error (herror error rfl)) fun _ =>
        .last fun _ => refuses_error (.inr (.inr rfl))
      cases result with
      | error error => exact refuses_error (hresult error rfl)
      | ok next => exact refuses_ok next
    | some => exact .last fun _ => refuses_ok ()
  · exact refuses_ok ()

theorem publishCpuDirty_answers : (publishCpuDirty p).Answers (Refuses dirtyError) := by
  refine .last fun page => ?_
  split
  · refine advanceCpuDirtyEpoch_answers.attempt
      (fun error herror => refuses_error (herror error rfl)) fun _ =>
        .last fun _ => .last fun failed => ?_
    cases failed with
    | true => exact refuses_error (.inl rfl)
    | false => exact refuses_ok ()
  · exact refuses_ok ()

theorem takeFromClean_answers : (takeFromClean p).Answers (Refuses id) := by
  refine .last fun page => ?_
  split
  · exact publishVisibility_answers
  · exact refuses_ok ()

/-! ### Conflicts that are reported -/

/-- The call reports a conflict only if the peace is broken. -/
def Fair (T : Topology) (env : ℕ → Answer) (conflict : ε) (result : Except ε α) (h : Hist) :
    Prop :=
  result = .error conflict → ¬ Peaceful T env h

section Fair

variable {ε' : Type} {f : ε → ε'} {conflict error : ε} {result : Except ε α}

theorem fair_kept (result : Except ε α) :
    (system T env).Kept (Good T env) (Fair T env conflict result) := .imp disturbed_kept

theorem Fair.of_error {β : Type} (hfair : Fair T env conflict (.error error : Except ε α) h) :
    Fair T env conflict (.error error : Except ε β) h :=
  fun hconflict => hfair (by cases hconflict; rfl)

theorem Fair.mapError (hfair : Fair T env conflict result h) (hf : f.Injective) :
    Fair T env (f conflict) (result.mapError f) h := by
  cases result with
  | ok => exact fun hconflict => by cases hconflict
  | error => exact fun hconflict => hfair (congrArg _ (hf (Except.error.inj hconflict)))

theorem fair_of_ne (hne : result ≠ .error conflict) : Fair T env conflict result h :=
  fun hsame => absurd hsame hne

theorem Refuses.fair {g : ε → VisibilityError} (hrefuses : Refuses g result)
    (hconflict : g conflict = .conflictingAccess) : Fair T env conflict result h := by
  rintro rfl
  rcases hrefuses _ rfl with herror | herror | herror <;> rw [hconflict] at herror <;> cases herror

end Fair

/-- A conflict, as the CPU accesses report it. -/
abbrev pageConflict : CanonicalPageError := .visibility .conflictingAccess

/-! ### What precedes a CPU write -/

/-- The thread holds the page, and no device owns it unless the peace is broken. -/
def Authorized (T : Topology) (env : ℕ → Answer) (i p : ℕ) (h : Hist) : Prop :=
  ∃ page, Holds T env i p page h ∧ (page.visibility.gpuOwned = true → ¬ Peaceful T env h)

theorem HoldsVisible.authorized (hvisible : HoldsVisible T env i p h) : Authorized T env i p h := by
  obtain ⟨page, hholds, hcpu⟩ := hvisible
  refine ⟨page, hholds, fun howned => ?_⟩
  cases hvisibility : page.visibility <;> rw [hvisibility] at hcpu howned <;>
    first | exact Bool.noConfusion hcpu | exact Bool.noConfusion howned

/-- A conflict is declared only if the peace is broken, and the declaration never succeeds. -/
theorem declareConflict_sat {Q : Unit → Hist → Prop} : Ensures T env i (declareConflict p)
      (fun h => ¬ Peaceful T env h) (System.onResult Q fun _ => True) := by
  refine .attempt (Q := fun _ _ => True) (of_locked ?_) (fun _ _ _ _ => trivial)
    fun _ _ _ _ => trivial
  refine .pre (.exists fun page : Page => publishVisibility_sat.imp (fun h _
    (hboth : Holds T env i p page h ∧ ¬ Peaceful T env h) => ⟨hboth.1, ?_⟩)
    fun _ _ _ _ => trivial) fun h _ hknown => ?_
  · exact ⟨by rw [hboth.1.1]; exact hboth.1.2, fun _ => hboth.2, fun hvisible => by cases hvisible⟩
  · obtain ⟨⟨page, hholds⟩, hdisturbed⟩ := hknown
    exact ⟨page, hholds, hdisturbed⟩

theorem requireCpuAuthority_sat : Ensures T env i (requireCpuAuthority p) (Authorized T env i p)
      fun result h => VisibleIfOk T env i p result h ∧ Fair T env .conflictingAccess result h := by
  refine .exists fun page => ?_
  refine (readPage_sat.frame (.imp disturbed_kept)).bind fun read => ?_
  refine .pre (.given ?_) fun h _ hknown => and_assoc.1 hknown
  rintro rfl
  have hconflict : Ensures T env i (declareConflict p) (fun h => ¬ Peaceful T env h)
      fun result h => VisibleIfOk T env i p result h ∧ Fair T env .conflictingAccess result h :=
    (declareConflict_sat.frame disturbed_kept).imp (fun _ _ hdisturbed => ⟨hdisturbed, hdisturbed⟩)
      fun _ _ _ hboth => ⟨hboth.1, fun _ => hboth.2⟩
  cases hvisibility : read.visibility with
  | clean | cpuNewer =>
    exact fun h _ hboth => ⟨⟨read, hboth.1, by rw [hvisibility]; rfl⟩, fair_of_ne (by simp)⟩
  | gpuNewer => exact hconflict.pre fun h _ hboth => hboth.2 rfl
  | conflicting =>
    refine hconflict.pre fun h hlegal hboth hpeace => ?_
    exact (peaceful_state hlegal hpeace).2 p (by rw [hboth.1.1, hvisibility])
  | invalid => exact fun _ _ _ => ⟨trivial, fair_of_ne (by simp)⟩

theorem takeFromClean_sat : Ensures T env i (takeFromClean p) (HoldsVisible T env i p)
      (VisibleIfOk T env i p) := by
  refine .exists_given fun page hvisible => ?_
  refine readPage_known ?_
  split
  · refine publishVisibility_sat.imp
      (fun h _ hholds => ⟨hholds, hholds.admitted_visible hvisible (by simp)⟩)
      fun result h _ hpost => ?_
    cases result with
    | error => trivial
    | ok =>
      obtain ⟨moved, hholds, hmoved⟩ := hpost
      exact ⟨moved, hholds, by rw [hmoved]; rfl⟩
  · exact fun h _ hholds => ⟨page, hholds, hvisible⟩

/-- A call that keeps the visibility of the page keeps it the CPU's. -/
theorem visible_of_like {x : Thread (Except ε Unit)} {L : Page → Hist → Prop}
    (hx : ∀ page, Ensures T env i x (Holds T env i p page)
      (System.onResult (fun _ => HoldsLike T env i p page) (L page))) :
    Ensures T env i x (HoldsVisible T env i p) (VisibleIfOk T env i p) := by
  refine .exists_given fun page hvisible => ?_
  refine (hx page).post fun result h _ hpost => ?_
  cases result with
  | error => trivial
  | ok =>
    obtain ⟨moved, hholds, hsame, -⟩ := hpost
    exact ⟨moved, hholds, by rw [hsame]; exact hvisible⟩

/-- A visibility error is reported as a page error. -/
theorem asPageError_sat {x : Thread (Except VisibilityError α)}
    (hx : Ensures T env i x P fun result h => System.onResult Q (fun _ => True) result h ∧
      Fair T env .conflictingAccess result h) :
    Ensures T env i (asPageError x) P fun result h =>
      System.onResult Q (fun _ => True) result h ∧ Fair T env pageConflict result h := by
  refine hx.bind fun result h _ hpost => ⟨?_, hpost.2.mapError fun _ _ => by simp⟩
  cases result with
  | error => trivial
  | ok => exact hpost.1

/-- **Before a CPU write** the page becomes the CPU's, or the write fails. -/
theorem prepareCpuWriteLocked_sat :
    Ensures T env i (prepareCpuWriteLocked p) (Authorized T env i p)
      fun result h => VisibleIfOk T env i p result h ∧ Fair T env pageConflict result h := by
  refine .attempt (asPageError_sat requireCpuAuthority_sat)
    (fun _ _ _ hpost => ⟨trivial, hpost.2.of_error⟩) fun _ => ?_
  refine .attempt (asPageError_sat ((takeFromClean_sat.answers takeFromClean_answers).imp
    (fun _ _ hpost => hpost.1) fun _ _ _ hpost => ⟨hpost.2, hpost.1.fair rfl⟩))
    (fun _ _ _ hpost => ⟨trivial, hpost.2.of_error⟩) fun _ => ?_
  exact ((visible_of_like fun _ => publishCpuDirty_sat).answers publishCpuDirty_answers).imp
    (fun _ _ hpost => hpost.1)
    fun _ _ _ hpost => ⟨hpost.2, hpost.1.fair rfl⟩

/-! ### Critical sections -/

theorem locked_stable : (system T env).Stable (Good T env) i (Locked T env i p) := by
  rintro e h hlegal hexec hgood hne ⟨page, hholds⟩
  exact ⟨page, holds_stable e h hlegal hexec hgood hne hholds⟩

/-- The operation declares nothing for a device. -/
def Unmarked : Op → Prop
  | .mark (.prepares _ _) | .mark (.publishes _ _) | .mark .settles => False
  | _ => True

theorem LocalTo.unmarked {V : PageVisibility → Prop} (op : Op) (hop : LocalTo p V op) :
    Unmarked op := by
  cases op with
  | mark => exact hop.elim
  | _ => trivial

/-- Knowledge that survives the other threads, and the thread's own operations that declare
nothing for a device. -/
structure Steady (T : Topology) (env : ℕ → Answer) (i : ℕ) (F : Hist → Prop) : Prop where
  stable : (system T env).Stable (Good T env) i F
  own : ∀ e h, (system T env).Legal (Good T env) h → (system T env).Executes e h →
    Good T env e h → e.thread = i → Unmarked e.op → F h → F (e :: h)

theorem steady_of_kept (hF : (system T env).Kept (Good T env) F) : Steady T env i F :=
  ⟨hF.stable, fun e h hlegal hexec hgood _ _ => hF e h hlegal hexec hgood⟩

theorem Steady.and {G : Hist → Prop} (hF : Steady T env i F) (hG : Steady T env i G) :
    Steady T env i fun h => F h ∧ G h :=
  ⟨hF.stable.and hG.stable, fun e h hlegal hexec hgood hthread hop hboth =>
    ⟨hF.own e h hlegal hexec hgood hthread hop hboth.1,
      hG.own e h hlegal hexec hgood hthread hop hboth.2⟩⟩

theorem Steady.all {ι : Type} {s : List ι} {F : ι → Hist → Prop}
    (hF : ∀ x, Steady T env i (F x)) : Steady T env i fun h => ∀ x ∈ s, F x h :=
  ⟨fun e h hlegal hexec hgood hne hall x hx =>
      (hF x).stable e h hlegal hexec hgood hne (hall x hx),
    fun e h hlegal hexec hgood hthread hop hall x hx =>
      (hF x).own e h hlegal hexec hgood hthread hop (hall x hx)⟩

/-- Steady knowledge may be carried along a program that declares nothing. -/
theorem Steady.frame {x : Thread α} (hF : Steady T env i F) (hwithin : x.Within Unmarked)
    (hx : Ensures T env i x P Q) :
    Ensures T env i x (fun h => P h ∧ F h) fun a h => Q a h ∧ F h :=
  .frameWithin hF.stable hF.own hwithin hx

/-- An operation without an obligation keeps steady knowledge. -/
theorem perform_steady (hF : Steady T env i F) (op : Op)
    (hgood : ∀ answer s h, Good T env ⟨i, op, answer, s⟩ h) (hop : Unmarked op) :
    Ensures T env i (perform op) F fun _ => F := by
  refine .perform (fun _ => hF.stable) fun h answer s hlegal hknown hexec => ?_
  exact ⟨hgood answer s h, hF.own _ h hlegal hexec (hgood answer s h) rfl hop hknown⟩

/-- An operation without an obligation keeps what no legal event ends. -/
theorem perform_kept (hF : (system T env).Kept (Good T env) F) (op : Op)
    (hgood : ∀ answer s h, Good T env ⟨i, op, answer, s⟩ h) :
    Ensures T env i (perform op) F fun _ => F := by
  refine .perform (fun _ => hF.stable) fun h answer s hlegal hknown hexec => ?_
  exact ⟨hgood answer s h, hF _ h hlegal hexec (hgood answer s h) hknown⟩

theorem lockPage_sat (hF : Steady T env i F) :
    Ensures T env i (act (.lockPage p)) F fun _ h => Locked T env i p h ∧ F h := by
  refine .perform (fun _ => locked_stable.and hF.stable) fun h answer s hlegal hknown hexec => ?_
  have hF := hF.own ⟨i, .lockPage p, answer, s⟩ h hlegal hexec trivial rfl trivial hknown
  have hexec : exec i (.lockPage p) ((system T env).state h) = some (answer, s) := hexec
  simp only [exec, Option.map_eq_some_iff, acquire_eq_some] at hexec
  obtain ⟨_, ⟨-, rfl⟩, hpair⟩ := hexec
  cases hpair
  exact ⟨trivial, ⟨_, rfl, by simp [setPage_pages]⟩, hF⟩

section

variable (hF : Steady T env i F) (hQ : ∀ a, Steady T env i (Q a))
include hF hQ

/-- **A critical section.** -/
theorem locked_sat (hbody : Ensures T env i body (fun h => Locked T env i p h ∧ F h) Q) :
    Ensures T env i (locked p body) F Q := by
  refine (lockPage_sat hF).bind fun _ => ?_
  refine hbody.bind fun a => ?_
  refine (perform_steady (hQ a) (.unlockPage p) (fun _ _ _ => trivial) trivial).bind fun _ => ?_
  exact fun h _ hpost => hpost

/-- **A critical section over several pages.** -/
theorem lockedAll_sat (hbody : Ensures T env i body F Q) {ps : List ℕ} :
    Ensures T env i (lockedAll ps body) F Q := by
  refine .bind (.forEach (I := fun _ => F)
    (fun p _ => perform_steady hF (.lockPage p) (fun _ _ _ => trivial) trivial) ps) fun _ => ?_
  refine hbody.bind fun a => ?_
  refine .bind (.forEach (I := fun _ => Q a)
    (fun p _ => perform_steady (hQ a) (.unlockPage p) (fun _ _ _ => trivial) trivial) ps)
    fun _ => ?_
  exact fun h _ hpost => hpost

end

/-! ### Programs without a specification of their own -/

/-- Every operation the program performs is good, whatever the state it starts in. -/
abbrev Safe {α : Type} (T : Topology) (env : ℕ → Answer) (i : ℕ) (x : Thread α) : Prop :=
  Ensures T env i x (fun _ => True) fun _ _ => True

theorem true_steady : Steady T env i fun _ => True :=
  steady_of_kept fun _ _ _ _ _ _ => trivial

/-- A program with a specification from every state is safe. -/
theorem Safe.of_any {x : Thread α} (hx : Ensures T env i x (fun _ => True) Q) : Safe T env i x :=
  hx.post fun _ _ _ _ => trivial

theorem Safe.done (a : α) : Safe T env i (.done a) := fun _ _ _ => trivial

theorem Safe.bind {β : Type} {x : Thread α} {f : α → Thread β} {Q : β → Hist → Prop}
    (hx : Safe T env i x) (hf : ∀ a, Ensures T env i (f a) (fun _ => True) Q) :
    Ensures T env i (x.bind f) (fun _ => True) Q :=
  .bind hx hf

theorem Safe.attempt {β : Type} {f : α → Thread (Except ε β)} (hx : Safe T env i x)
    (hf : ∀ a, Safe T env i (f a)) : Safe T env i (Interleaving.attempt x f) :=
  .attemptAny hx hf

theorem Safe.forEach {body : α → Thread Unit} (hbody : ∀ x, Safe T env i (body x))
    (xs : List α) : Safe T env i (Interleaving.forEach body xs) :=
  System.Sat.forEach (I := fun _ _ => True) (fun x _ => hbody x) xs

theorem Safe.tryEach {body : α → Thread (Except ε Unit)}
    (hbody : ∀ x, Safe T env i (body x)) {xs : List α} :
    Safe T env i (Interleaving.tryEach body xs) := by
  induction xs with
  | nil => exact .done _
  | cons x xs ih => exact (hbody x).attempt fun _ => ih

theorem Safe.perform (op : Op) (hgood : ∀ answer s h, Good T env ⟨i, op, answer, s⟩ h) :
    Safe T env i (Interleaving.perform op) :=
  System.Sat.perform (fun _ => .true) fun h answer s _ _ _ => ⟨hgood answer s h, trivial⟩

theorem Safe.hostFails : Safe T env i hostFails := .perform _ fun _ _ _ => trivial

theorem Safe.ownerPoint {o : ℕ} : Safe T env i (ownerPoint o) :=
  .perform _ fun _ _ _ => trivial

theorem Safe.readPage : Safe T env i (readPage p) := .of_any readPage_any

theorem Safe.setVisibility (hhides : Hides visibility) :
    Safe T env i (setVisibility p visibility) := .of_any (setVisibility_any hhides)

theorem Safe.publishVisibility (hhides : Hides visibility) :
    Safe T env i (publishVisibility p visibility) :=
  .of_any (publishVisibility_any hhides)

theorem Safe.invalidate : Safe T env i (ignore (Memory.publishVisibility p .invalid)) :=
  (Safe.publishVisibility hides_invalid).bind fun _ => Safe.done _

theorem Safe.locked (hbody : Safe T env i body) : Safe T env i (locked p body) :=
  locked_sat true_steady (fun _ => true_steady) (hbody.pre fun _ _ _ => trivial)

theorem Safe.lockedAll (hbody : Safe T env i body) {ps : List ℕ} :
    Safe T env i (lockedAll ps body) :=
  lockedAll_sat true_steady (fun _ => true_steady) hbody

end Nixe.Memory
