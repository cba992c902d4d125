import Mathlib.Data.List.Nodup
import Mathlib.Data.List.Perm.Basic
import TelemetryBands.Registry.Calls

/-!
# The tables of a registry

Topics are looked up by their names and routes by their endpoints. This file says what every
operation on the tables does to these look-ups. A topic is changed in its place, so letting the
topics of some names do something changes exactly these, each once, and each does what it would have
done at the start.
-/

namespace TelemetryBands

/-- Changes the topics of some names. -/
def Pipeline.changeIn (names : List String) (g : Pipeline → Pipeline) (p : Pipeline) : Pipeline :=
  if p.name ∈ names then g p else p

theorem Pipeline.changeIn_name {g : Pipeline → Pipeline} (hg : ∀ p, (g p).name = p.name)
    (names : List String) (p : Pipeline) : (changeIn names g p).name = p.name := by
  unfold changeIn
  split
  · exact hg p
  · rfl

namespace Registry

variable {r : Registry} {name : String} {p q : Pipeline} {g : Pipeline → Pipeline} {α : Type}

theorem mem_of_topic? (h : r.topic? name = some p) : p ∈ r.topics ∧ p.name = name :=
  ⟨List.mem_of_find?_eq_some h, by simpa using List.find?_some h⟩

/-- A name is looked up as the topic that has it. -/
theorem topic?_eq_some_iff (h : (r.topics.map Pipeline.name).Nodup) :
    r.topic? name = some p ↔ p ∈ r.topics ∧ p.name = name := by
  refine ⟨mem_of_topic?, ?_⟩
  rintro ⟨hmem, rfl⟩
  cases hfind : r.topic? p.name with
  | none =>
    have hnot := List.find?_eq_none.mp hfind p hmem
    simp at hnot
  | some q =>
    obtain ⟨hq, hname⟩ := mem_of_topic? hfind
    rw [List.inj_on_of_nodup_map h hq hmem hname]

theorem topic?_eq_none_iff : r.topic? name = none ↔ ∀ p ∈ r.topics, p.name ≠ name := by
  simp [topic?, List.find?_eq_none]

theorem topic_of_some (h : r.topic? name = some p) : r.topic name = .ok p := by
  rw [topic, h]

theorem topic_of_none (h : r.topic? name = none) : r.topic name = .error (.noTopic name) := by
  rw [topic, h]

/-- A change that keeps the names changes what is found. -/
theorem find?_map_topics (hg : ∀ p, (g p).name = p.name) (topics : List Pipeline) :
    (topics.map g).find? (fun p => p.name == name) =
      (topics.find? fun p => p.name == name).map g := by
  rw [List.find?_map]
  congr 2
  funext p
  simp [hg p]

/-- A topic that is put in its place is found under its name. -/
theorem topic?_putTopic (hp : r.topic? name = some p) :
    (r.putTopic q).topic? name = some (if name = q.name then q else p) := by
  have hput : ∀ x : Pipeline, (if x.name == q.name then q else x).name = x.name := by
    intro x
    split
    · rename_i hname
      exact (beq_iff_eq.mp hname).symm
    · rfl
  rw [topic?] at hp ⊢
  rw [putTopic, find?_map_topics hput, hp, Option.map_some, (mem_of_topic? hp).2]
  simp only [beq_iff_eq]

/-- A new topic does not hide another one. -/
theorem topic?_install (hp : r.topic? name = some p) (other : String) (endpoint : Endpoint)
    (spec : TopicSpec) : (r.install other endpoint spec).topic? name = some p := by
  rw [topic?] at hp ⊢
  rw [install, List.find?_append, hp, Option.some_or]

theorem delete_of_some (h : r.topic? name = some p) :
    r.delete name = (r.uninstall p, .ok ()) := by
  rw [delete, topic_of_some h]

theorem topic?_uninstall (h : p.name ≠ name) : (r.uninstall p).topic? name = r.topic? name := by
  simp only [topic?, uninstall, List.find?_filter]
  congr 1
  funext x
  by_cases hx : x.name = name
  · simp [hx, Ne.symm h]
  · simp [hx]

/-- Putting a changed topic in its place changes the topic of its name. -/
theorem putTopic_eq (h : (r.topics.map Pipeline.name).Nodup) (hp : r.topic? name = some p)
    (hg : (g p).name = name) :
    r.putTopic (g p) = { r with topics := r.topics.map (Pipeline.changeIn [name] g) } := by
  unfold putTopic
  congr 1
  apply List.map_congr_left
  intro q hq
  simp only [Pipeline.changeIn, List.mem_singleton, hg, beq_iff_eq]
  split
  · rename_i hname
    obtain ⟨hmem, hname'⟩ := mem_of_topic? hp
    rw [List.inj_on_of_nodup_map h hq hmem (hname.trans hname'.symm)]
  · rfl

/-- Changing the topics of names that no topic has changes nothing. -/
theorem map_changeIn_of_forall (names : List String) (h : ∀ p ∈ r.topics, p.name ∉ names) :
    r.topics.map (Pipeline.changeIn names g) = r.topics := by
  conv_rhs => rw [← List.map_id r.topics]
  apply List.map_congr_left
  intro p hp
  exact if_neg (h p hp)

section Work

variable {f : Pipeline → Pipeline × α × Effect} {names : List String}

/-- What the topic of a name answers. -/
def answerOf (r : Registry) (f : Pipeline → Pipeline × α × Effect) (name : String) :
    Option (α × List Event) :=
  (r.topic? name).map fun p => ((f p).2.1, (f p).2.2.events)

/-- The topic of a name is changed, and it answers. -/
theorem work_eq (name : String) (hf : ∀ p, (f p).1.name = p.name)
    (h : (r.topics.map Pipeline.name).Nodup) :
    ∃ faults, r.work name f =
      ({ r with topics := r.topics.map (Pipeline.changeIn [name] fun p => (f p).1), faults },
        r.answerOf f name) := by
  unfold work answerOf
  cases hfind : r.topic? name with
  | none =>
    refine ⟨r.faults, ?_⟩
    rw [map_changeIn_of_forall]
    · rfl
    · intro p hp
      rw [List.mem_singleton]
      exact topic?_eq_none_iff.mp hfind p hp
  | some p =>
    have hname : (f p).1.name = name := (hf p).trans (mem_of_topic? hfind).2
    refine ⟨r.faults.reportAll (f p).2.2.faults, ?_⟩
    have hput := putTopic_eq (g := fun p => (f p).1) h hfind hname
    simp only [hput, Option.map_some]

/-- The topics of distinct names are changed, and each answers as it is at the start. -/
theorem workAll_eq (hf : ∀ p, (f p).1.name = p.name) (h : (r.topics.map Pipeline.name).Nodup)
    (hnames : names.Nodup) :
    ∃ faults, r.workAll f names =
      ({ r with topics := r.topics.map (Pipeline.changeIn names fun p => (f p).1), faults },
        names.filterMap (r.answerOf f)) := by
  induction names generalizing r with
  | nil =>
    refine ⟨r.faults, ?_⟩
    rw [map_changeIn_of_forall [] (fun p _ => List.not_mem_nil)]
    rfl
  | cons name names ih =>
    obtain ⟨hhead, hrest⟩ := List.nodup_cons.mp hnames
    obtain ⟨faults, hwork⟩ := work_eq name hf h
    have hkept : ∀ p, (Pipeline.changeIn [name] (fun p => (f p).1) p).name = p.name :=
      Pipeline.changeIn_name hf [name]
    have hnodup : ((r.topics.map (Pipeline.changeIn [name] fun p => (f p).1)).map
        Pipeline.name).Nodup := by
      rw [List.map_map, show Pipeline.name ∘ Pipeline.changeIn [name] (fun p => (f p).1) =
        Pipeline.name from funext hkept]
      exact h
    obtain ⟨faults', hall⟩ := ih (r := { r with
      topics := r.topics.map (Pipeline.changeIn [name] fun p => (f p).1), faults }) hnodup hrest
    refine ⟨faults', ?_⟩
    rw [workAll, hwork]
    simp only [hall, Prod.mk.injEq]
    constructor
    · congr 1
      rw [List.map_map]
      apply List.map_congr_left
      intro p _
      simp only [Function.comp_apply, Pipeline.changeIn, List.mem_cons]
      by_cases hp : p.name = name
      · have hp' : (f p).1.name ∉ names := by rw [hf p, hp]; exact hhead
        simp [hp, hp']
      · simp [hp]
    · -- The first name changed no other topic, so the others answer as they were.
      have hothers : ∀ other ∈ names, answerOf { r with
          topics := r.topics.map (Pipeline.changeIn [name] fun p => (f p).1), faults } f other =
            r.answerOf f other := by
        intro other hother
        have hne : other ≠ name := fun heq => hhead (heq ▸ hother)
        unfold answerOf topic?
        rw [find?_map_topics hkept]
        cases hfind : r.topics.find? fun p => p.name == other with
        | none => rfl
        | some p =>
          have hp : p.name = other := (mem_of_topic? hfind).2
          have hsame : Pipeline.changeIn [name] (fun p => (f p).1) p = p := by
            apply if_neg
            rw [List.mem_singleton, hp]
            exact hne
          simp [hsame]
      rw [List.filterMap_congr hothers, List.filterMap_cons]
      cases r.answerOf f name <;> rfl

/-- The topics of some names do the same whatever the order of the names is. -/
theorem workAll_perm {names' : List String} (hf : ∀ p, (f p).1.name = p.name)
    (h : (r.topics.map Pipeline.name).Nodup) (hnames : names.Nodup) (hperm : names'.Perm names) :
    (r.workAll f names').1.topics = (r.workAll f names).1.topics ∧
      (r.workAll f names').2.Perm (r.workAll f names).2 := by
  obtain ⟨faults, hall⟩ := workAll_eq hf h hnames
  obtain ⟨faults', hall'⟩ := workAll_eq hf h (hperm.nodup_iff.mpr hnames)
  rw [hall, hall']
  refine ⟨?_, hperm.filterMap _⟩
  apply List.map_congr_left
  intro p _
  simp only [Pipeline.changeIn, hperm.mem_iff]

end Work

theorem insertName_perm (name : String) (names : List String) :
    (insertName name names).Perm (name :: names) := by
  induction names with
  | nil => exact List.Perm.refl _
  | cons first names ih =>
    unfold insertName
    split
    · exact List.Perm.refl _
    · exact (ih.cons first).trans (List.Perm.swap name first names)

/-- The names of a registry are those of its topics. -/
theorem names_perm (r : Registry) : r.names.Perm (r.topics.map Pipeline.name) := by
  unfold names
  induction r.topics with
  | nil => exact List.Perm.refl _
  | cons p topics ih =>
    exact (insertName_perm p.name _).trans (ih.cons p.name)

end Registry

/-- The names that a list of routes has for an endpoint. -/
def Route.namesAt (routes : List Route) (endpoint : Endpoint) : List String :=
  ((routes.find? fun route => route.endpoint == endpoint).map Route.names).getD []

namespace Route

variable {routes : List Route} {endpoint other : Endpoint} {name : String}

theorem namesAt_cons (route : Route) (routes : List Route) (endpoint : Endpoint) :
    namesAt (route :: routes) endpoint =
      if route.endpoint = endpoint then route.names else namesAt routes endpoint := by
  unfold namesAt
  rw [List.find?_cons]
  by_cases h : route.endpoint = endpoint
  · simp [h]
  · have hbeq : (route.endpoint == endpoint) = false := by simpa using h
    simp [h, hbeq]

/-- An endpoint without a route has no names. -/
theorem namesAt_eq_nil (h : endpoint ∉ routes.map Route.endpoint) :
    namesAt routes endpoint = [] := by
  induction routes with
  | nil => rfl
  | cons route routes ih =>
    rw [List.map_cons, List.mem_cons, not_or] at h
    rw [namesAt_cons, if_neg (Ne.symm h.1), ih h.2]

theorem namesAt_addRoute (endpoint : Endpoint) (name : String) (routes : List Route)
    (other : Endpoint) :
    namesAt (Registry.addRoute endpoint name routes) other =
      if endpoint = other then namesAt routes other ++ [name] else namesAt routes other := by
  induction routes with
  | nil =>
    simp only [Registry.addRoute, namesAt_cons]
    rfl
  | cons route routes ih =>
    simp only [Registry.addRoute]
    split
    · rename_i heq
      simp only [namesAt_cons, heq]
      split <;> rfl
    · rename_i hne
      rw [namesAt_cons, namesAt_cons, ih]
      by_cases hroute : route.endpoint = other
      · have hother : endpoint ≠ other := fun heq => hne (hroute.trans heq.symm)
        rw [if_pos hroute, if_pos hroute, if_neg hother]
      · rw [if_neg hroute, if_neg hroute]

theorem mem_endpoints_addRoute :
    other ∈ (Registry.addRoute endpoint name routes).map Route.endpoint ↔
      other = endpoint ∨ other ∈ routes.map Route.endpoint := by
  induction routes with
  | nil => simp [Registry.addRoute]
  | cons route routes ih =>
    simp only [Registry.addRoute]
    split
    · rename_i heq
      simp only [List.map_cons, List.mem_cons, heq]
      tauto
    · simp only [List.map_cons, List.mem_cons, ih]
      tauto

/-- A new name gives no endpoint a second route and leaves no route empty. -/
theorem addRoute_sound (h : (routes.map Route.endpoint).Nodup)
    (hne : ∀ route ∈ routes, route.names ≠ []) :
    ((Registry.addRoute endpoint name routes).map Route.endpoint).Nodup ∧
      ∀ route ∈ Registry.addRoute endpoint name routes, route.names ≠ [] := by
  induction routes with
  | nil => simp [Registry.addRoute]
  | cons route routes ih =>
    obtain ⟨hfirst, hrest⟩ := List.nodup_cons.mp h
    obtain ⟨hnodup, hnames⟩ := ih hrest fun r hr => hne r (List.mem_cons_of_mem route hr)
    simp only [Registry.addRoute]
    split
    · refine ⟨h, fun r hr => ?_⟩
      rcases List.mem_cons.mp hr with rfl | hr
      · simp
      · exact hne r (List.mem_cons_of_mem route hr)
    · rename_i hroute
      constructor
      · rw [List.map_cons, List.nodup_cons, mem_endpoints_addRoute, not_or]
        exact ⟨⟨hroute, hfirst⟩, hnodup⟩
      · intro r hr
        rcases List.mem_cons.mp hr with rfl | hr
        · exact hne r List.mem_cons_self
        · exact hnames r hr

theorem endpoints_dropRoute_sublist (endpoint : Endpoint) (name : String) (routes : List Route) :
    ((Registry.dropRoute endpoint name routes).map Route.endpoint).Sublist
      (routes.map Route.endpoint) := by
  induction routes with
  | nil => exact List.Sublist.refl _
  | cons route routes ih =>
    simp only [Registry.dropRoute]
    split
    · split
      · exact List.sublist_cons_self _ _
      · exact List.Sublist.refl _
    · exact ih.cons_cons route.endpoint

/-- A name that is dropped leaves the route of its endpoint and no other. -/
theorem namesAt_dropRoute (h : (routes.map Route.endpoint).Nodup) :
    namesAt (Registry.dropRoute endpoint name routes) other =
      if endpoint = other then (namesAt routes other).filter (· != name)
      else namesAt routes other := by
  induction routes with
  | nil => simp [Registry.dropRoute, namesAt]
  | cons route routes ih =>
    obtain ⟨hfirst, hrest⟩ := List.nodup_cons.mp h
    simp only [Registry.dropRoute]
    split
    · rename_i heq
      split
      · rename_i hempty
        rw [namesAt_cons, heq]
        split
        · rename_i hother
          rw [List.isEmpty_iff.mp hempty, namesAt_eq_nil]
          rw [← hother, ← heq]
          exact hfirst
        · rfl
      · simp only [namesAt_cons, heq]
        split <;> rfl
    · rename_i hne
      rw [namesAt_cons, namesAt_cons, ih hrest]
      by_cases hroute : route.endpoint = other
      · have hother : endpoint ≠ other := fun heq => hne (hroute.trans heq.symm)
        rw [if_pos hroute, if_pos hroute, if_neg hother]
      · rw [if_neg hroute, if_neg hroute]

/-- A name that is dropped leaves no route empty. -/
theorem dropRoute_ne_nil (hne : ∀ route ∈ routes, route.names ≠ []) :
    ∀ route ∈ Registry.dropRoute endpoint name routes, route.names ≠ [] := by
  induction routes with
  | nil =>
    intro route hroute
    cases hroute
  | cons first routes ih =>
    have hrest := ih fun r hr => hne r (List.mem_cons_of_mem first hr)
    intro route hroute
    simp only [Registry.dropRoute] at hroute
    split at hroute
    · split at hroute
      · exact hne route (List.mem_cons_of_mem first hroute)
      · rename_i hempty
        rcases List.mem_cons.mp hroute with rfl | hroute
        · exact fun heq => hempty (List.isEmpty_iff.mpr heq)
        · exact hne route (List.mem_cons_of_mem first hroute)
    · rcases List.mem_cons.mp hroute with rfl | hroute
      · exact hne route List.mem_cons_self
      · exact hrest route hroute

end Route

end TelemetryBands
