import TelemetryBands.Proofs.Session.Texts
import TelemetryBands.Proofs.Session.Unreadable

/-!
# The last failure of a session

A call that reports returns a failure exactly if it leaves the number of one, and a call that
succeeds leaves nothing of an earlier failure. The text of a failure is kept unless it has a zero
character. Only the description of a topic can bring one into it: bytes that are passed end at the
first zero byte, but a document writes any character with an escape.
-/

namespace TelemetryBands.Session

open Text

variable {s : Session} {h : Handle} {call : Call} {request : Request} {returned : Returned}
  {failure : Failure} {α : Type}

/-- Whether a call reports its failures: all do but giving the registry up and asking for the
version. -/
def Call.reports : Call → Bool
  | .new _ | .ask _ _ => true
  | .free | .version => false

/-- Whether a request creates a topic. -/
def Request.creates : Request → Bool
  | .create _ _ => true
  | _ => false

/-- Whether a call creates a topic. -/
def Call.creates : Call → Bool
  | .ask _ request => request.creates
  | _ => false

/-- The failure that an answer is, if it is one. -/
def failureOf : Except Failure α → Option Failure
  | .ok _ => none
  | .error failure => some failure

theorem failureOf_eq_some_iff {answer : Except Failure α} :
    failureOf answer = some failure ↔ answer = .error failure := by
  cases answer <;> simp [failureOf]

/-- The failure of a call, if it fails. -/
def failure? (s : Session) : Call → Option Failure
  | .new config => failureOf (settingsOf config)
  | .ask passed request =>
    match s.handle with
    | none => some noRegistry
    | some h => if passed then failureOf (serve h request).2 else some noRegistry
  | .free | .version => none

/-! ## What is returned -/

/-- An answer that no caller takes for a failure, and whose text can be handed out. -/
def Answers (answer : Except Failure Returned) : Prop :=
  ∀ returned, answer = .ok returned →
    returned.isFailure = false ∧ ∀ text, returned = .text (some text) → ZeroFree text

theorem answers_given {a : Except Failure α} {f : α → Handle × Except Failure Returned}
    (hf : ∀ x, Answers (f x).2) : Answers (given h a f).2 := by
  cases a with
  | error failure => exact nofun
  | ok x => exact hf x

/-- A count is not negative, so it is not taken for a failure. -/
theorem answers_counting {outcome : Handle × Except Failure Int}
    (hcount : ∀ n, outcome.2 = .ok n → 0 ≤ n) : Answers (counting outcome).2 := by
  obtain ⟨h, answer⟩ := outcome
  cases answer with
  | error failure => exact nofun
  | ok n =>
    intro returned heq
    obtain rfl := Except.ok.inj heq
    exact ⟨decide_eq_false (Int.not_lt.mpr (hcount n rfl)), nofun⟩

theorem answers_telling {outcome : Handle × Except Failure String}
    (htext : ∀ text, outcome.2 = .ok text → ZeroFree text) : Answers (telling outcome).2 := by
  obtain ⟨h, answer⟩ := outcome
  cases answer with
  | error failure => exact nofun
  | ok told =>
    have hfree := htext told rfl
    rw [telling_of_zeroFree hfree]
    intro returned heq
    obtain rfl := Except.ok.inj heq
    refine ⟨rfl, fun text htold => ?_⟩
    obtain rfl := Option.some.inj (Returned.text.inj htold)
    exact hfree

theorem nonneg_of_map {answer : Except Failure α} {f : α → Int} (hf : ∀ a, 0 ≤ f a) {n : Int}
    (h : answer.map f = .ok n) : 0 ≤ n := by
  cases answer with
  | error failure => cases h
  | ok a => exact Except.ok.inj h ▸ hf a

theorem zero_le_status (n : Nat) : 0 ≤ Handle.status n := by
  unfold Handle.status
  omega

theorem answers_serve (h : Handle) (request : Request) : Answers (serve h request).2 := by
  cases request with
  | create name text =>
    refine answers_given fun name => answers_given fun text => answers_counting fun n hn => ?_
    unfold Handle.create at hn
    generalize h.registry.create name text = outcome at hn
    exact nonneg_of_map (fun _ => Int.le_refl 0) hn
  | delete name =>
    refine answers_given fun name => answers_counting fun n hn => ?_
    unfold Handle.delete at hn
    split at hn
    · exact (Except.ok.inj hn).le
    · cases hn
  | cleanUp =>
    refine answers_counting fun n hn => ?_
    obtain rfl := Except.ok.inj hn
    exact zero_le_status _
  | subscribe topic =>
    refine answers_given fun topic => answers_telling fun text htext => ?_
    unfold Handle.subscribe at htext
    split at htext
    · exact Except.ok.inj htext ▸ zeroFree_id _
    · cases htext
  | unsubscribe id =>
    refine answers_given fun id => answers_counting fun n hn => ?_
    unfold Handle.unsubscribe at hn
    split at hn
    · cases hn
    · split at hn
      · exact (Except.ok.inj hn).le
      · cases hn
  | next id =>
    refine answers_given fun id => answers_telling fun text htext => ?_
    unfold Handle.next at htext
    split at htext
    · cases htext
    · rename_i subscription hsubscription
      cases hnext : (h.registry.next subscription.id).2 with
      | error failure => simp [hnext, Except.map] at htext
      | ok e =>
        simp only [hnext, Except.map, Except.ok.injEq] at htext
        exact htext ▸ zeroFree_encode _
  | ingest device point t x =>
    refine answers_given fun device => answers_given fun point => answers_counting fun n hn => ?_
    unfold Handle.ingest at hn
    generalize h.registry.ingest device point ⟨t, .number x⟩ = outcome at hn
    exact nonneg_of_map (fun _ => zero_le_status _) hn
  | advance device point w =>
    refine answers_counting fun n hn => ?_
    unfold Handle.advance at hn
    split at hn
    · rename_i name point _ _
      generalize h.registry.advance name point w = outcome at hn
      exact nonneg_of_map (fun _ => zero_le_status _) hn
    · obtain rfl := Except.ok.inj hn
      exact zero_le_status _
    · cases hn

/-! ## What a failure says -/

theorem tells_given {a : Except Failure α} {f : α → Handle × Except Failure Returned}
    (ha : Tells a) (hf : ∀ x, a = .ok x → Tells (f x).2) : Tells (given h a f).2 := by
  cases a with
  | error failure => exact Tells.error (ha failure rfl)
  | ok x => exact hf x rfl

theorem tells_counting {outcome : Handle × Except Failure Int} (h : Tells outcome.2) :
    Tells (counting outcome).2 :=
  h.map _

theorem tells_telling {outcome : Handle × Except Failure String} (h : Tells outcome.2) :
    Tells (telling outcome).2 :=
  h.map _

/-- A missing argument is named by its place. -/
theorem tells_required {name : String} (hname : ZeroFree name) (a : Argument) :
    Tells (required a name) := by
  unfold required
  split
  · exact Tells.ok _
  · refine Tells.error (Failure.zeroFree_message ?_)
    exact ((by decide : ZeroFree "Invalid ").append hname).append (by decide)

theorem zeroFree_of_required {a : Argument} {name text : String} (ha : a.ZeroFree)
    (h : required a name = .ok text) : ZeroFree text := by
  unfold required at h
  split at h
  · rename_i text' htext
    obtain rfl := Except.ok.inj h
    exact ha.text htext
  · cases h

theorem tells_subscription (h : Handle) (text : String) : Tells (h.subscription text) := by
  unfold Handle.subscription
  split
  · exact Tells.error (f := Handle.notAnId) (by decide +kernel)
  · split
    · exact Tells.ok _
    · exact Tells.error (Registry.zeroFree_noSubscription _)

theorem tells_halfTarget : Tells (.error Handle.halfTarget : Except Failure α) :=
  Tells.error (by decide +kernel)

/-- A request on arguments without zero bytes fails with a text that can be handed out, unless it
creates a topic. -/
theorem tells_serve (hcreates : request.creates = false)
    (hargs : ∀ a ∈ request.arguments, a.ZeroFree) : Tells (serve h request).2 := by
  cases request with
  | create name text => cases hcreates
  | delete name =>
    have hname := hargs name List.mem_cons_self
    refine tells_given (tells_required (by decide) name) fun text htext => tells_counting ?_
    have hdelete := h.registry.tells_delete (zeroFree_of_required hname htext)
    unfold Handle.delete
    split
    · exact Tells.ok _
    · rename_i registry failure heq
      rw [heq] at hdelete
      exact Tells.error (hdelete failure rfl)
  | cleanUp => exact tells_counting (Tells.ok _)
  | subscribe topic =>
    have htopic := hargs topic List.mem_cons_self
    refine tells_given (tells_required (by decide) topic) fun text htext => tells_telling ?_
    have hsubscribe := h.registry.tells_subscribe (zeroFree_of_required htopic htext)
    unfold Handle.subscribe
    split
    · exact Tells.ok _
    · rename_i registry failure heq
      rw [heq] at hsubscribe
      exact Tells.error (hsubscribe failure rfl)
  | unsubscribe id =>
    refine tells_given (tells_required (by decide) id) fun text _ => tells_counting ?_
    unfold Handle.unsubscribe
    split
    · rename_i failure heq
      exact Tells.error (tells_subscription h text failure heq)
    · rename_i subscription _
      have hunsubscribe := h.registry.tells_unsubscribe subscription.id
      split
      · exact Tells.ok _
      · rename_i registry failure heq
        rw [heq] at hunsubscribe
        exact Tells.error (hunsubscribe failure rfl)
  | next id =>
    refine tells_given (tells_required (by decide) id) fun text _ => tells_telling ?_
    unfold Handle.next
    split
    · rename_i failure heq
      exact Tells.error (tells_subscription h text failure heq)
    · rename_i subscription _
      have htells := h.registry.tells_next subscription.id
      generalize h.registry.next subscription.id = outcome at htells ⊢
      exact htells.map _
  | ingest device point t x =>
    have hdevice := hargs device List.mem_cons_self
    refine tells_given (tells_required (by decide) device) fun name hname => ?_
    refine tells_given (tells_required (by decide) point) fun _ _ => tells_counting ?_
    rename_i point _
    have htells := h.registry.tells_ingest (zeroFree_of_required hdevice hname) point
      ⟨t, .number x⟩
    unfold Handle.ingest
    generalize h.registry.ingest name point ⟨t, .number x⟩ = outcome at htells ⊢
    exact htells.map _
  | advance device point w =>
    have hdevice := hargs device List.mem_cons_self
    refine tells_counting ?_
    unfold Handle.advance
    cases hname : device.text? with
    | none =>
      cases point.text? with
      | none => exact Tells.ok _
      | some name => exact tells_halfTarget
    | some name =>
      cases point.text? with
      | none => exact tells_halfTarget
      | some point =>
        have htells := h.registry.tells_advance (hdevice.text hname) point w
        simp only
        generalize h.registry.advance name point w = outcome at htells ⊢
        exact htells.map _

/-- What is wrong with settings is told by the name of a limit or by a fixed text. -/
theorem zeroFree_of_flaw? {settings : Settings} {flaw : Settings.Flaw}
    (h : settings.flaw? = some flaw) : ZeroFree flaw.text := by
  have hnames : ∀ limit ∈ settings.limits, ZeroFree limit.1 := by
    simp only [Settings.limits, List.forall_mem_cons]
    exact ⟨by decide, by decide, by decide, by decide, by decide, List.forall_mem_nil _⟩
  unfold Settings.flaw? at h
  simp only [Option.orElse_eq_orElse, Option.orElse_eq_or, Option.or_eq_some_iff] at h
  rcases h with h | ⟨-, h⟩
  · obtain ⟨limit, hlimit, rfl⟩ := Option.map_eq_some_iff.mp h
    have hname := hnames limit (List.mem_of_find?_eq_some hlimit)
    exact ((by decide : ZeroFree "").append hname).append (by decide)
  · unfold Settings.watermarkFlaw? at h
    split at h
    · cases h
    · split at h
      · obtain rfl := Option.some.inj h
        decide +kernel
      · cases h

/-- Settings that are refused are refused with a fixed text, unless their document is not even
read. -/
theorem zeroFree_of_settingsOf {config : Argument} (h : settingsOf config = .error failure)
    (hread : failure ≠ .unreadableDocument) : ZeroFree failure.message := by
  unfold settingsOf at h
  split at h
  · cases h
  · unfold Settings.parse at h
    split at h
    · exact absurd (Except.error.inj h).symm hread
    · split at h
      · cases h
      · rename_i settings _ flaw hflaw
        obtain rfl := Except.error.inj h
        exact Failure.zeroFree_message (zeroFree_of_flaw? hflaw)

/-! ## What is remembered -/

theorem code_ne_zero (failure : Failure) : failure.code ≠ 0 := by
  unfold Failure.code
  cases failure.kind <;> decide

theorem lastError_failed (s : Session) (failure : Failure) :
    (s.failed failure).lastError =
      if ZeroFree failure.message then some failure.message else none :=
  handedOut?_eq failure.message

/-- A call without a failure leaves none behind, and returns what it was asked for. -/
theorem apply_of_success (hcall : call.reports = true) (hnone : s.failure? call = none) :
    (s.apply call).1.lastError = none ∧ (s.apply call).1.lastCode = 0 ∧
      (s.apply call).2.isFailure = false ∧
        ∀ text, (s.apply call).2 = .text (some text) → ZeroFree text := by
  cases call with
  | new config =>
    unfold failure? at hnone
    cases hsettings : settingsOf config with
    | error failure => simp [hsettings, failureOf] at hnone
    | ok settings =>
      simp only [apply, hsettings]
      refine ⟨rfl, rfl, rfl, fun text htext => ?_⟩
      cases htext
  | free => cases hcall
  | version => cases hcall
  | ask passed request =>
    rw [apply_ask]
    unfold failure? at hnone
    cases hs : s.handle with
    | none => simp [hs] at hnone
    | some h =>
      cases passed with
      | false => simp [hs] at hnone
      | true =>
        cases hserve : (serve h request).2 with
        | error failure => simp [hs, hserve, failureOf] at hnone
        | ok returned =>
          rw [ask_of_ok hs hserve]
          exact ⟨rfl, rfl, answers_serve h request returned hserve⟩

/-- A call fails for the settings of a new registry, for want of a registry or of a request, or with
the request it serves. -/
theorem failure?_cases (hfailure : s.failure? call = some failure) :
    (∃ config, call = .new config ∧ settingsOf config = .error failure) ∨
    (∃ passed request, call = .ask passed request ∧ (s.handle = none ∨ passed = false) ∧
      failure = noRegistry) ∨
    ∃ h request, call = .ask true request ∧ s.handle = some h ∧
      (serve h request).2 = .error failure := by
  cases call with
  | new config => exact Or.inl ⟨config, rfl, failureOf_eq_some_iff.mp hfailure⟩
  | free => cases hfailure
  | version => cases hfailure
  | ask passed request =>
    refine Or.inr ?_
    unfold failure? at hfailure
    cases hs : s.handle with
    | none =>
      simp only [hs, Option.some.injEq] at hfailure
      exact Or.inl ⟨passed, request, rfl, Or.inl rfl, hfailure.symm⟩
    | some h =>
      cases passed with
      | false =>
        simp only [hs, Option.some.injEq, Bool.false_eq_true, if_false] at hfailure
        exact Or.inl ⟨false, request, rfl, Or.inr rfl, hfailure.symm⟩
      | true =>
        simp only [hs, if_true] at hfailure
        exact Or.inr ⟨h, request, rfl, rfl, failureOf_eq_some_iff.mp hfailure⟩

/-- A call with a failure returns one, and leaves its number and its text behind, if the text can be
handed out. -/
theorem apply_of_failure (hfailure : s.failure? call = some failure) :
    (s.apply call).1.lastError =
        (if ZeroFree failure.message then some failure.message else none) ∧
      (s.apply call).1.lastCode = failure.code ∧ (s.apply call).2.isFailure = true := by
  rcases failure?_cases hfailure with ⟨config, rfl, hsettings⟩ | ⟨passed, request, rfl, hs, rfl⟩ |
    ⟨h, request, rfl, hs, hserve⟩
  · simp only [apply, hsettings]
    exact ⟨lastError_failed _ _, rfl, rfl⟩
  · rw [apply_ask]
    rcases hs with hs | rfl
    · rw [ask_of_none hs]
      exact ⟨lastError_failed _ _, rfl, isFailure_onFailure request⟩
    · rw [ask_of_not_passed]
      exact ⟨lastError_failed _ _, rfl, isFailure_onFailure request⟩
  · rw [apply_ask, ask_of_error hs hserve]
    exact ⟨lastError_failed _ _, rfl, isFailure_onFailure request⟩

/-- A call that does not create a topic fails with a text that can be handed out, if its arguments
have no zero bytes and the document of its settings is read. -/
theorem zeroFree_of_failure? (hcreates : call.creates = false)
    (hargs : ∀ a ∈ call.arguments, a.ZeroFree) (hfailure : s.failure? call = some failure)
    (hread : failure ≠ .unreadableDocument) : ZeroFree failure.message := by
  rcases failure?_cases hfailure with ⟨config, rfl, hsettings⟩ | ⟨passed, request, rfl, -, rfl⟩ |
    ⟨h, request, rfl, -, hserve⟩
  · exact zeroFree_of_settingsOf hsettings hread
  · decide +kernel
  · exact tells_serve hcreates hargs failure hserve

/-- The number of the last failure always tells whether the last call failed, and its text does so
unless it has a zero character. Whatever a session holds, a call that reports returns a failure if
and only if it leaves the number of one; a call that succeeds leaves neither number nor text of an
earlier failure, and what it returns can be handed out; a call that fails leaves the text of its
failure if this has no zero character, and no text if it has one. So the text is there after every
failure of a call that does not create a topic, if no argument has a zero byte. The remark of the
reader that refuses a document of settings stands in no text here, so of such a refusal only the
number is told. -/
theorem failures_are_told_unless_texts_have_zeros (s : Session) {call : Call}
    (hcall : call.reports = true) :
    let after := (s.apply call).1
    let returned := (s.apply call).2
    (returned.isFailure = true ↔ after.lastCode ≠ 0) ∧
    (returned.isFailure = true ↔ ∃ failure, s.failure? call = some failure) ∧
    (returned.isFailure = false → after.lastError = none ∧ after.lastCode = 0 ∧
      ∀ text, returned = .text (some text) → ZeroFree text) ∧
    (∀ failure, s.failure? call = some failure → after.lastCode = failure.code ∧
      (failure ≠ .unreadableDocument → after.lastError =
        if ZeroFree failure.message then some failure.message else none)) ∧
    (call.creates = false → (∀ a ∈ call.arguments, a.ZeroFree) →
      s.failure? call ≠ some .unreadableDocument →
        (returned.isFailure = true ↔ after.lastError ≠ none)) := by
  intro after returned
  cases hfailure : s.failure? call with
  | none =>
    obtain ⟨herror, hcode, hreturned, htext⟩ := apply_of_success hcall hfailure
    have hfine : ¬ returned.isFailure = true := by
      rw [hreturned]
      exact Bool.false_ne_true
    exact ⟨iff_of_false hfine fun hne => hne hcode, iff_of_false hfine nofun,
      fun _ => ⟨herror, hcode, htext⟩, nofun, fun _ _ _ => iff_of_false hfine fun hne => hne herror⟩
  | some failure =>
    obtain ⟨herror, hcode, hreturned⟩ := apply_of_failure hfailure
    have hnonzero : after.lastCode ≠ 0 := by
      rw [hcode]
      exact code_ne_zero failure
    refine ⟨iff_of_true hreturned hnonzero, iff_of_true hreturned ⟨failure, rfl⟩, fun hfine => ?_,
      fun other hother => ?_, fun hcreates hargs hread => iff_of_true hreturned ?_⟩
    · rw [hreturned] at hfine
      cases hfine
    · obtain rfl := Option.some.inj hother
      exact ⟨hcode, fun _ => herror⟩
    · have hfree := zeroFree_of_failure? hcreates hargs hfailure fun heq => hread (heq ▸ rfl)
      rw [herror, if_pos hfree]
      exact Option.some_ne_none _

/-- In a new registry a topic that is not there cannot be deleted, and this is told. -/
theorem failures_are_told_unless_texts_have_zeros_deleted :
    let s := (initial.apply (.new none)).1
    let call : Call := .ask true (.delete (.ofText "t"))
    (∀ a ∈ call.arguments, a.ZeroFree) ∧ s.failure? call = some (.noTopic "t") ∧
      (s.apply call).1.lastCode = 13013 ∧ (s.apply call).1.lastError ≠ none := by
  intro s call
  have hargs : ∀ a ∈ call.arguments, a.ZeroFree := by
    intro a ha
    obtain rfl := List.mem_singleton.mp ha
    exact Argument.zeroFree_ofText (by decide)
  have hfailure : s.failure? call = some (.noTopic "t") := by decide +kernel
  obtain ⟨-, hfails, -, hcode, htold⟩ :=
    failures_are_told_unless_texts_have_zeros s (show call.reports = true from rfl)
  refine ⟨hargs, hfailure, (hcode _ hfailure).1, ?_⟩
  refine (htold rfl hargs ?_).mp (hfails.mpr ⟨_, hfailure⟩)
  rw [hfailure]
  decide

/-- A topic whose rule writes an aggregation with an escaped zero character: creating it fails with
a number and without a text, though no byte that is passed is zero. -/
theorem failure_without_text :
    let rule : Json := .record [("lowerBound", .ofInt 0), ("aggregation", .ofText "A\x00")]
    let spec := (Json.record [("deviceName", .ofText "d"), ("endpointName", .ofText "p"),
      ("rules", .array [rule])]).compact
    let s := (initial.apply (.new none)).1
    let call : Call := .ask true (.create (.ofText "t") (.ofText spec))
    (∀ a ∈ call.arguments, a.ZeroFree) ∧ (s.apply call).2 = .status (-1) ∧
      (s.apply call).1.lastCode = 13061 ∧ (s.apply call).1.lastError = none := by
  intro rule spec s call
  refine ⟨fun a ha => ?_, by decide +kernel⟩
  rcases List.mem_cons.mp ha with rfl | ha
  · exact Argument.zeroFree_ofText (by decide)
  · obtain rfl := List.mem_singleton.mp ha
    exact Argument.zeroFree_ofText (by decide +kernel)

end TelemetryBands.Session
