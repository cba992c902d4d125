import TelemetryBands.Program.Perform
import TelemetryBands.Proofs.Registry.Failures

/-!
# Validation and creation

`validate` reads the descriptions of topics, and a run creates the topics. Creation begins with the
same reading, so what `validate` reports is refused with the same failure by every registry. But it
goes on to check the name of the topic and the endpoint that the description names, and answers
failures of the same kind there. These `validate` overlooks, although the hint of such a failure
sends the reader to it.
-/

namespace TelemetryBands

/-- Outcomes are compared by what they hold. -/
instance decidableEqExcept {ε α : Type} [DecidableEq ε] [DecidableEq α] :
    DecidableEq (Except ε α)
  | .ok a, .ok b => decidable_of_iff (a = b) (by rw [Except.ok.injEq])
  | .error e, .error f => decidable_of_iff (e = f) (by rw [Except.error.injEq])
  | .ok _, .error _ => isFalse nofun
  | .error _, .ok _ => isFalse nofun

namespace Registry

variable {r : Registry} {name text : String} {spec : TopicSpec} {failure : Failure}

/-- A registry finds fault with the name of a topic or with the endpoint of its description. -/
inductive Rejects (r : Registry) (name : String) (spec : TopicSpec) : Failure → Prop where
  | name {refusal : Refusal} (hname : nameRefusal? name = some refusal) :
    Rejects r name spec refusal.failure
  | endpoint {flaw : Endpoint.Flaw} (hname : nameRefusal? name = none)
    (hresolve : Endpoint.resolve r.settings.scope spec.device spec.point = .error flaw) :
    Rejects r name spec flaw.failure

theorem kind_of_densityRefusal? {ladder : Ladder} {refusal : Refusal}
    (h : r.densityRefusal? ladder = some refusal) : refusal.failure.kind = .resource := by
  unfold densityRefusal? at h
  obtain ⟨rule, -, rfl⟩ := Option.map_eq_some_iff.mp h
  rfl

theorem kind_of_tableRefusal? {refusal : Refusal} (h : r.tableRefusal? name = some refusal) :
    refusal.failure.kind = .alreadyExists ∨ refusal.failure.kind = .resource := by
  unfold tableRefusal? at h
  split at h
  · rw [← Option.some.inj h]
    exact .inl rfl
  · split at h
    · rw [← Option.some.inj h]
      exact .inr rfl
    · cases h

/-- Of the checks on a topic with a description, those of the name and of the endpoint end in a
failure of validation; the others end in failures of other kinds. -/
theorem rejects_of_examine (h : r.examine name spec = .error failure)
    (hkind : failure.kind = .validation) : r.Rejects name spec failure := by
  unfold examine at h
  cases hname : nameRefusal? name with
  | some refusal =>
    simp only [hname, Option.orElse_eq_orElse, Option.orElse_some, Except.error.injEq] at h
    exact h ▸ .name hname
  | none =>
    rw [hname, Option.orElse_eq_orElse, Option.orElse_none] at h
    split at h
    · rename_i refusal hdense
      obtain rfl := Except.error.inj h
      rw [kind_of_densityRefusal? hdense] at hkind
      cases hkind
    · split at h
      · rename_i flaw hresolve
        exact Except.error.inj h ▸ .endpoint hname hresolve
      · split at h
        · obtain rfl := Except.error.inj h
          cases hkind
        · split at h
          · rename_i refusal htable
            obtain rfl := Except.error.inj h
            rcases kind_of_tableRefusal? htable with hother | hother
            all_goals
              rw [hother] at hkind
              cases hkind
          · cases h

end Registry

namespace Program

variable {settings : Settings} {definitions : List Definition} {d : Definition} {f : Failure}
  {r : Registry}

/-- A definition whose description cannot be read is refused by every registry, for that reason and
whatever its name is. -/
theorem Definition.create_of_failure? (h : d.failure? = some f) (r : Registry) :
    r.create d.name d.text = (r, .error f) := by
  unfold failure? at h
  cases hparse : TopicSpec.parse d.text with
  | ok spec => simp only [hparse, reduceCtorEq] at h
  | error flaw =>
    simp only [hparse, Option.some.injEq] at h
    simp only [Registry.create, hparse, h]

/-- A failure of validation comes from the description, or from the name and the endpoint. -/
theorem Definition.failure?_or_rejects (h : (r.create d.name d.text).2 = .error f)
    (hkind : f.kind = .validation) :
    d.failure? = some f ∨
      d.failure? = none ∧ ∃ spec, TopicSpec.parse d.text = .ok spec ∧ r.Rejects d.name spec f := by
  unfold Registry.create at h
  unfold failure?
  cases hparse : TopicSpec.parse d.text with
  | error flaw =>
    simp only [hparse, Except.error.injEq] at h
    exact .inl (congrArg some h)
  | ok spec =>
    simp only [hparse, Registry.createFrom] at h
    cases hexamine : r.examine d.name spec with
    | error failure =>
      rw [hexamine] at h
      obtain rfl := Except.error.inj h
      exact .inr ⟨rfl, spec, rfl, Registry.rejects_of_examine hexamine hkind⟩
    | ok endpoint => simp only [hexamine, reduceCtorEq] at h

/-- The defects of a report are the definitions whose descriptions cannot be read, each at its
place. -/
theorem Validation.mem_defectsFrom {defect : Defect} (first : Nat) :
    defect ∈ defectsFrom first definitions ↔
      ∃ place d, definitions[place]? = some d ∧ defect.index = first + place ∧
        defect.topic = d.name ∧ d.failure? = some defect.failure := by
  induction definitions generalizing first with
  | nil => simp [defectsFrom]
  | cons d definitions ih =>
    have hrest : (∃ place d', (d :: definitions)[place]? = some d' ∧
        defect.index = first + place ∧ defect.topic = d'.name ∧
          d'.failure? = some defect.failure) ↔
        (defect.index = first ∧ defect.topic = d.name ∧ d.failure? = some defect.failure) ∨
          defect ∈ defectsFrom (first + 1) definitions := by
      rw [ih (first + 1)]
      constructor
      · rintro ⟨place, d', hplace, hindex, htopic, hfailure⟩
        cases place with
        | zero =>
          rw [List.getElem?_cons_zero, Option.some.injEq] at hplace
          exact .inl ⟨hindex, hplace ▸ htopic, hplace ▸ hfailure⟩
        | succ place =>
          rw [List.getElem?_cons_succ] at hplace
          exact .inr ⟨place, d', hplace, by omega, htopic, hfailure⟩
      · rintro (⟨hindex, htopic, hfailure⟩ | ⟨place, d', hplace, hindex, htopic, hfailure⟩)
        · exact ⟨0, d, List.getElem?_cons_zero, hindex, htopic, hfailure⟩
        · refine ⟨place + 1, d', ?_, by omega, htopic, hfailure⟩
          rw [List.getElem?_cons_succ]
          exact hplace
    rw [hrest, defectsFrom]
    cases hfailure : d.failure? with
    | none => simp
    | some failure =>
      obtain ⟨index, topic, failure'⟩ := defect
      simp only [List.mem_cons, Defect.mk.injEq, Option.some.injEq, eq_comm]

theorem Validation.mem_defects {defect : Defect} :
    defect ∈ (ofDefinitions definitions).defects ↔
      ∃ d, definitions[defect.index]? = some d ∧ defect.topic = d.name ∧
        d.failure? = some defect.failure := by
  rw [ofDefinitions, mem_defectsFrom 0]
  constructor
  · rintro ⟨place, d, hplace, hindex, hrest⟩
    rw [Nat.zero_add] at hindex
    exact ⟨d, hindex ▸ hplace, hrest⟩
  · rintro ⟨d, hplace, hrest⟩
    exact ⟨defect.index, d, hplace, (Nat.zero_add _).symm, hrest⟩

namespace RunOptions

variable {o : RunOptions} {i : Inputs}

/-- Creating topics does not change the settings. -/
theorem settings_create (r : Registry) (name text : String) :
    (r.create name text).1.settings = r.settings := by
  unfold Registry.create
  split
  · rfl
  · unfold Registry.createFrom
    split <;> rfl

theorem settings_createAll {final : Registry} (h : createAll r definitions = .ok final) :
    final.settings = r.settings := by
  induction definitions generalizing r with
  | nil => exact congrArg Registry.settings (Except.ok.inj h).symm
  | cons d definitions ih =>
    unfold createAll at h
    split at h
    · rename_i next key hcreate
      rw [ih h, ← settings_create r d.name d.text, hcreate]
    · cases h

/-- Creation stops at the first definition that is refused, with the failure of that. -/
theorem exists_refused {problem : Problem} (h : createAll r definitions = .error problem) :
    ∃ before d after next failure, definitions = before ++ d :: after ∧
      createAll r before = .ok next ∧ (next.create d.name d.text).2 = .error failure ∧
        problem = .failure failure := by
  induction definitions generalizing r with
  | nil => cases h
  | cons d definitions ih =>
    unfold createAll at h
    split at h
    · rename_i next key hcreate
      obtain ⟨before, d', after, last, failure, rfl, hbefore, hrest⟩ := ih h
      refine ⟨d :: before, d', after, last, failure, rfl, ?_, hrest⟩
      simp only [createAll, hcreate, hbefore]
    · rename_i next failure hcreate
      refine ⟨[], d, definitions, r, failure, rfl, rfl, ?_, (Except.error.inj h).symm⟩
      rw [hcreate]

/-- A run that cannot create its topics ends with the problem. -/
theorem perform_of_createAll {problem : Problem} (hsettings : o.settings i = .ok settings)
    (hdefinitions : i.definitions o.topics = .ok definitions)
    (h : createAll (.new settings fun _ => true) definitions = .error problem) :
    (Command.run o).perform i = .fail problem := by
  have hsome : definitions.isEmpty = false := by
    cases definitions with
    | nil => cases h
    | cons d definitions => rfl
  have hdefs : o.definitions i = .ok definitions := by
    rw [RunOptions.definitions, hdefinitions]
    simp [Except.bind, hsome]
  have hprepare : o.prepare i = .error problem := by
    simp only [prepare, hsettings, hdefs, h, bind, Except.bind]
  have houtcome : o.outcome i = .error problem := by
    simp only [outcome, hprepare, bind, Except.bind]
  rw [Command.perform, houtcome]
  rfl

end RunOptions

/-- How validation and a run agree on definitions, and where they do not. When a run stops because a
topic cannot be created and the failure is one of validation, it ends with that failure, and the
topics before were created. Then either the report names the definition at its place with the same
failure; or it has nothing on it, as its description can be read, and the registry found fault with
the name or the endpoint. The other way round, every definition that the report names is refused by
every registry with the failure that it names, and nothing changes. -/
theorem validation_overlooks_names_and_endpoints {i : Inputs} {o : RunOptions}
    {settings : Settings} {definitions : List Definition} (hsettings : o.settings i = .ok settings)
    (hdefinitions : i.definitions o.topics = .ok definitions) :
    (∀ f : Failure, f.kind = .validation →
      RunOptions.createAll (.new settings fun _ => true) definitions = .error (.failure f) →
      (Command.run o).perform i = .fail (.failure f) ∧
      ∃ before d after r, definitions = before ++ d :: after ∧
        RunOptions.createAll (.new settings fun _ => true) before = .ok r ∧
        (r.create d.name d.text).2 = .error f ∧
        (⟨before.length, d.name, f⟩ ∈ (Validation.ofDefinitions definitions).defects ∨
          (∀ defect ∈ (Validation.ofDefinitions definitions).defects,
            defect.index ≠ before.length) ∧
          ∃ spec, TopicSpec.parse d.text = .ok spec ∧
            ((∃ refusal, Registry.nameRefusal? d.name = some refusal ∧ f = refusal.failure) ∨
              Registry.nameRefusal? d.name = none ∧
              ∃ flaw, Endpoint.resolve settings.scope spec.device spec.point = .error flaw ∧
                f = flaw.failure))) ∧
    (∀ defect ∈ (Validation.ofDefinitions definitions).defects,
      ∃ d, definitions[defect.index]? = some d ∧ defect.topic = d.name ∧
        ∀ r : Registry, r.create d.name d.text = (r, .error defect.failure)) ∧
    ∀ json, (Command.validate o.topics json).perform i =
      (Validation.ofDefinitions definitions).outcome json := by
  refine ⟨?_, ?_, ?_⟩
  · intro f hkind hcreate
    refine ⟨RunOptions.perform_of_createAll hsettings hdefinitions hcreate, ?_⟩
    obtain ⟨before, d, after, r, failure, hsplit, hbefore, hrefused, hproblem⟩ :=
      RunOptions.exists_refused hcreate
    obtain rfl := Problem.failure.inj hproblem
    have hplace : definitions[before.length]? = some d := by
      rw [hsplit, List.getElem?_append_right (Nat.le_refl _), Nat.sub_self]
      rfl
    refine ⟨before, d, after, r, hsplit, hbefore, hrefused, ?_⟩
    rcases Definition.failure?_or_rejects hrefused hkind with
      hfailure | ⟨hnone, spec, hspec, hrejects⟩
    · exact .inl (Validation.mem_defects.mpr ⟨d, hplace, rfl, hfailure⟩)
    · refine .inr ⟨?_, spec, hspec, ?_⟩
      · intro defect hdefect hindex
        obtain ⟨d', hplace', -, hfailure⟩ := Validation.mem_defects.mp hdefect
        rw [hindex, hplace, Option.some.injEq] at hplace'
        rw [← hplace', hnone] at hfailure
        cases hfailure
      · have hscope : r.settings = settings := RunOptions.settings_createAll hbefore
        cases hrejects with
        | name hname => exact .inl ⟨_, hname, rfl⟩
        | endpoint hname hresolve => exact .inr ⟨hname, _, hscope ▸ hresolve, rfl⟩
  · intro defect hdefect
    obtain ⟨d, hplace, htopic, hfailure⟩ := Validation.mem_defects.mp hdefect
    exact ⟨d, hplace, htopic, d.create_of_failure? hfailure⟩
  · intro json
    rw [Command.perform, hdefinitions]
    rfl

/-- A topic without rules: validation reports the failure that the run ends with. -/
theorem validation_overlooks_names_and_endpoints_without_rules :
    let spec : Json := .record
      [("deviceName", .ofText "boiler"), ("endpointName", .ofText "pressure")]
    let i : Inputs := ⟨fun _ => .ok (Json.record [("t", spec)]).compact.toUTF8.toList, [], false⟩
    let o : RunOptions := ⟨"topics.json", "-", "-", none, none, none, .lines, none, none⟩
    let failure : Failure := ⟨.validation, "a topic needs at least one rule"⟩
    let d : Definition := ⟨"t", spec.compact⟩
    (o.settings i = .ok .standard ∧ i.definitions o.topics = .ok [d]) ∧
      (Validation.ofDefinitions [d]).defects = [⟨0, "t", failure⟩] ∧
      (Command.run o).perform i = .fail (.failure failure) ∧
      (∀ r : Registry, r.create d.name d.text = (r, .error failure)) := by
  intro spec i o failure d
  have hsettings : o.settings i = .ok .standard := rfl
  have hdefinitions : i.definitions o.topics = .ok [d] := by decide +kernel
  have hfailure : d.failure? = some failure := by decide +kernel
  have hdefects : (Validation.ofDefinitions [d]).defects = [⟨0, "t", failure⟩] := by
    decide +kernel
  have hcreate : RunOptions.createAll (.new .standard fun _ => true) [d] =
      .error (.failure failure) := by
    simp only [RunOptions.createAll, d.create_of_failure? hfailure]
  obtain ⟨hrun, hreport, -⟩ := validation_overlooks_names_and_endpoints hsettings hdefinitions
  obtain ⟨d', hd', -, hrefused⟩ := hreport ⟨0, "t", failure⟩ (by rw [hdefects]; simp)
  obtain rfl : d = d' := Option.some.inj hd'
  exact ⟨⟨hsettings, hdefinitions⟩, hdefects, (hrun failure rfl hcreate).1, hrefused⟩

/-- A topic whose endpoint has a blank name: the run ends with a failure of validation and sends the
reader to a report that finds nothing. -/
theorem blank_endpoint_is_reported_valid :
    let spec : Json := .record
      [("deviceName", .ofText "boiler"), ("endpointName", .ofText " "),
        ("rules", .array [.record [("lowerBound", .ofInt 0)]])]
    let i : Inputs := ⟨fun _ => .ok (Json.record [("t", spec)]).compact.toUTF8.toList, [], false⟩
    let o : RunOptions := ⟨"topics.json", "-", "-", none, none, none, .lines, none, none⟩
    let failure : Failure := ⟨.validation, "endpointName must not be empty"⟩
    o.settings i = .ok .standard ∧ i.definitions o.topics = .ok [⟨"t", spec.compact⟩] ∧
      ((Registry.new .standard fun _ => true).create "t" spec.compact).2 = .error failure ∧
      (Command.run o).perform i = .fail (.failure failure) ∧
      (Problem.failure failure).hint = "Run 'topicwatch validate' for details" ∧
      (Validation.ofDefinitions [⟨"t", spec.compact⟩]).defects = [] ∧
      (Command.validate o.topics false).perform i = .ofText ("Validation Report\n"
        ++ "=================\nTotal topics:   1\nValid topics:   1\nInvalid topics: 0\n") := by
  intro spec i o failure
  have hsettings : o.settings i = .ok .standard := rfl
  exact ⟨hsettings, by decide +kernel⟩

end Program

end TelemetryBands
