import EntityModel.Proofs.Linking.ReportKinds
import EntityModel.Proofs.Source.Making
import EntityModel.Proofs.Store.Diagnosed
import Mathlib.Data.List.TakeWhile

/-!
# The order of endpoint parameters in a linked store

A parameter goes first if the route names it between braces or it is sent in the body, and it is
reported if some parameter before it does not go first (`orderReports_parameterProblems`).  The
route is that of the endpoint alone, without the one that the file gives to all its endpoints.  So
parameters are judged as on the full route wherever the same go first there, in particular where the
route of the file names nothing (`Reachable.parameter_order_exact`).
-/

namespace EntityModel

/-! ### Names in a route -/

namespace Route

/-- The name stands between braces in the route.  Names are found from the left: behind the first
opening brace a name goes on to the next closing one, and the search goes on behind it. -/
inductive Names : List Char → List Char → Prop
  | here {before name behind : List Char} : '{' ∉ before → '\x7d' ∉ name →
      Names (before ++ '{' :: (name ++ '\x7d' :: behind)) name
  | later {before passed behind name : List Char} : '{' ∉ before → '\x7d' ∉ passed →
    Names behind name →
      Names (before ++ '{' :: (passed ++ '\x7d' :: behind)) name

/-- A list with the element is cut in one way at the first of it. -/
theorem takeWhile_ne {c : Char} {u : List Char} (hu : c ∉ u) (v : List Char) :
    (u ++ c :: v).takeWhile (· != c) = u := by
  rw [List.takeWhile_append_of_pos fun x hx => by simpa using ne_of_mem_of_not_mem hx hu,
    List.takeWhile_cons_of_neg (by simp), List.append_nil]

theorem dropWhile_ne {c : Char} {u : List Char} (hu : c ∉ u) (v : List Char) :
    (u ++ c :: v).dropWhile (· != c) = c :: v := by
  rw [List.dropWhile_append_of_pos fun x hx => by simpa using ne_of_mem_of_not_mem hx hu,
    List.dropWhile_cons_of_neg (by simp)]

theorem dropWhile_ne_of_not_mem {c : Char} {u : List Char} (hu : c ∉ u) :
    u.dropWhile (· != c) = [] :=
  List.dropWhile_eq_nil_iff.mpr fun x hx => by simpa using ne_of_mem_of_not_mem hx hu

theorem Names.mem_brace {route name : List Char} (h : Names route name) : '{' ∈ route := by
  cases h <;> simp

/-- Behind the first opening brace a closing one follows. -/
theorem Names.mem_closing {before rest name : List Char} (hbefore : '{' ∉ before)
    (h : Names (before ++ '{' :: rest) name) : '\x7d' ∈ rest := by
  generalize hroute : before ++ '{' :: rest = route at h
  have hdrop := congrArg (List.dropWhile (· != '{')) hroute
  rw [dropWhile_ne hbefore] at hdrop
  cases h with
  | here hb _ | later hb _ _ =>
    rw [dropWhile_ne hb] at hdrop
    rw [(List.cons.inj hdrop).2]
    simp

/-- A route is read from its first pair of braces on. -/
theorem names_iff {before passed behind name : List Char} (hbefore : '{' ∉ before)
    (hpassed : '\x7d' ∉ passed) :
    Names (before ++ '{' :: (passed ++ '\x7d' :: behind)) name ↔
    name = passed ∨ Names behind name := by
  constructor
  · intro h
    generalize hroute : before ++ '{' :: (passed ++ '\x7d' :: behind) = route at h
    have hcut : ∀ {b p r : List Char}, '{' ∉ b → '\x7d' ∉ p →
        before ++ '{' :: (passed ++ '\x7d' :: behind) = b ++ '{' :: (p ++ '\x7d' :: r) →
        passed = p ∧ behind = r := by
      intro b p r hb hp he
      have hrest := congrArg (List.dropWhile (· != '{')) he
      rw [dropWhile_ne hbefore, dropWhile_ne hb] at hrest
      have htail := (List.cons.inj hrest).2
      have hname := congrArg (List.takeWhile (· != '\x7d')) htail
      have hbehind := congrArg (List.dropWhile (· != '\x7d')) htail
      rw [takeWhile_ne hpassed, takeWhile_ne hp] at hname
      rw [dropWhile_ne hpassed, dropWhile_ne hp] at hbehind
      exact ⟨hname, (List.cons.inj hbehind).2⟩
    cases h with
    | here hb hp => exact Or.inl (hcut hb hp hroute).1.symm
    | later hb hp hlater => exact Or.inr ((hcut hb hp hroute).2 ▸ hlater)
  · rintro (rfl | h)
    · exact .here hbefore hpassed
    · exact .later hbefore hpassed h

/-- **The names that the search finds are those between braces**, whatever braces are left open. -/
theorem mem_parameterNamesFrom {name : List Char} (fuel : Nat) :
    ∀ {route : List Char}, route.length < fuel →
    (name ∈ parameterNamesFrom fuel route ↔ Names route name) := by
  induction fuel with
  | zero => exact fun h => absurd h (Nat.not_lt_zero _)
  | succ fuel ih =>
    intro route hlength
    by_cases hopen : '{' ∈ route
    · obtain ⟨before, rest, rfl, hbefore⟩ := List.eq_append_cons_of_mem hopen
      by_cases hclosed : '\x7d' ∈ rest
      · obtain ⟨passed, behind, rfl, hpassed⟩ := List.eq_append_cons_of_mem hclosed
        have hshort : behind.length < fuel := by
          simp only [List.length_append, List.length_cons] at hlength
          omega
        rw [names_iff hbefore hpassed, ← ih hshort, parameterNamesFrom, dropWhile_ne hbefore]
        simp only [dropWhile_ne hpassed, takeWhile_ne hpassed, List.mem_cons]
      · -- the brace is never closed
        have hnone : ¬ Names (before ++ '{' :: rest) name := fun h =>
          hclosed (h.mem_closing hbefore)
        simp only [parameterNamesFrom, dropWhile_ne hbefore, dropWhile_ne_of_not_mem hclosed,
          List.not_mem_nil, hnone]
    · have hnone : ¬ Names route name := fun h => hopen h.mem_brace
      simp only [parameterNamesFrom, dropWhile_ne_of_not_mem hopen, List.not_mem_nil, hnone]

theorem mem_parameterNames {route name : String} :
    name ∈ parameterNames route ↔ Names route.toList name.toList := by
  have hlength : route.toList.length < route.length + 1 := by
    rw [String.length_toList]
    exact Nat.lt_succ_self _
  rw [parameterNames, ← mem_parameterNamesFrom _ hlength, List.mem_map]
  constructor
  · rintro ⟨cs, hcs, rfl⟩
    rwa [String.toList_ofList]
  · exact fun h => ⟨name.toList, h, String.ofList_toList⟩

/-- What stands in front without an opening brace names nothing. -/
theorem names_append {start route name : List Char} (hstart : '{' ∉ start) :
    Names (start ++ route) name ↔ Names route name := by
  have hsame : ∀ fuel, parameterNamesFrom (fuel + 1) (start ++ route)
      = parameterNamesFrom (fuel + 1) route := by
    intro fuel
    have hdrop : (start ++ route).dropWhile (· != '{') = route.dropWhile (· != '{') :=
      List.dropWhile_append_of_pos fun x hx => by simpa using ne_of_mem_of_not_mem hx hstart
    rw [parameterNamesFrom, parameterNamesFrom, hdrop]
  have hlength : route.length < (start ++ route).length + 1 := by
    rw [List.length_append]
    omega
  rw [← mem_parameterNamesFrom ((start ++ route).length + 1) (Nat.lt_succ_self _), hsame,
    mem_parameterNamesFrom _ hlength]

/-- **Below a route that names nothing, a route names what it does alone.** -/
theorem names_full {route : String} {start : Option String}
    (hstart : ∀ text, start = some text → '{' ∉ text.toList)
    {name : List Char} : Names (full route start).toList name ↔ Names route.toList name := by
  unfold full
  cases start with
  | none => rfl
  | some text =>
    simp only []
    split
    · rfl
    · have hhead : '{' ∉ (text.toList.reverse.dropWhile (· == '/')).reverse ++ ['/'] := by
        intro hin
        rcases List.mem_append.mp hin with hin | hin
        · exact hstart text
            rfl (List.mem_reverse.mp ((List.dropWhile_sublist _).subset (List.mem_reverse.mp hin)))
        · simp at hin
      have hslashes : '{' ∉ route.toList.takeWhile (· == '/') := by
        intro hin
        simpa using List.mem_takeWhile_imp hin
      rw [String.toList_ofList, ← List.singleton_append, ← List.append_assoc, names_append hhead,
        ← names_append hslashes, List.takeWhile_append_dropWhile]

end Route

/-! ### Behind the first that comes last -/

/-- What is not chosen, behind something that is, stands in the order of its places. -/
theorem exists_places_behind {α : Type} (chosen : α → Bool) (as : List α) :
    ∃ places : List Nat, places.Pairwise (· < ·) ∧
      (∀ i, i ∈ places ↔ (∃ a, as[i]? = some a ∧ chosen a = false) ∧
        ∃ j < i, ∃ b, as[j]? = some b ∧ chosen b = true) ∧
      List.Forall₂ (fun i a => as[i]? = some a) places
        ((as.dropWhile fun a => !chosen a).filter fun a => !chosen a) := by
  induction as with
  | nil => exact ⟨[], .nil, by simp, .nil⟩
  | cons a as ih =>
    by_cases ha : chosen a = true
    · -- all that is not chosen from here on is behind the first element
      obtain ⟨places, hsorted, hmem, hplaces⟩ := exists_places_filter (fun a => !chosen a) as
      refine ⟨places.map (· + 1), List.pairwise_map.mpr (hsorted.imp Nat.succ_lt_succ),
        fun i => ?_, ?_⟩
      · cases i with
        | zero => simp
        | succ i =>
          have hfirst : ∃ j < i + 1, ∃ b, (a :: as)[j]? = some b ∧ chosen b = true :=
            ⟨0, Nat.succ_pos i, a, rfl, ha⟩
          rw [and_iff_left hfirst]
          simpa using hmem i
      · rw [List.dropWhile_cons_of_neg (by simp [ha]), List.filter_cons_of_neg (by simp [ha])]
        exact List.forall₂_map_left_iff.mpr hplaces
    · obtain ⟨places, hsorted, hmem, hplaces⟩ := ih
      refine ⟨places.map (· + 1), List.pairwise_map.mpr (hsorted.imp Nat.succ_lt_succ),
        fun i => ?_, ?_⟩
      · cases i with
        | zero => simp
        | succ i =>
          have hbefore : (∃ j < i + 1, ∃ b, (a :: as)[j]? = some b ∧ chosen b = true)
              ↔ ∃ j < i, ∃ b, as[j]? = some b ∧ chosen b = true := by
            constructor
            · rintro ⟨j, hj, b, hb, hchosen⟩
              cases j with
              | zero => exact absurd (Option.some.inj hb ▸ hchosen) ha
              | succ j => exact ⟨j, Nat.lt_of_succ_lt_succ hj, b, hb, hchosen⟩
            · rintro ⟨j, hj, b, hb, hchosen⟩
              exact ⟨j + 1, Nat.succ_lt_succ hj, b, hb, hchosen⟩
          rw [hbefore]
          simpa using hmem i
      · rw [List.dropWhile_cons_of_pos (by simp [ha])]
        exact List.forall₂_map_left_iff.mpr hplaces

/-! ### Parameters -/

namespace Validation

variable {m : Model} {rules : NamingRules}

/-- The parameter belongs in front: the route has its name between braces, in upper or lower case,
or it is sent in the body. -/
def GoesFirst (m : Model) (rules : NamingRules) (route : String) (p : Property) : Prop :=
  (∃ name : String, Route.Names route.toList name.toList ∧
    equalsIgnoringCase name (m.propertyName rules p.id) = true) ∨ m.isBodyParam p.id = true

/-- The parameter at the place belongs in front and one before it does not. -/
def Misplaced (m : Model) (rules : NamingRules) (route : String) (params : List Property)
    (i : Nat) : Prop :=
  (∃ p, params[i]? = some p ∧ GoesFirst m rules route p) ∧
    ∃ j < i, ∃ q, params[j]? = some q ∧ ¬ GoesFirst m rules route q

def orderReport (m : Model) (rules : NamingRules) (e : Endpoint) (p : Property) : Diagnostic :=
  { problem := .parameterOrder (m.propertyName rules p.id) e.name.value, location := p.location }

/-- Each misplaced parameter is reported once, in order, and nothing else is. -/
def OrderReports (m : Model) (rules : NamingRules) (route : String) (e : Endpoint)
    (ds : List Diagnostic) : Prop :=
  ∃ places : List Nat, places.Pairwise (· < ·) ∧
    (∀ i, i ∈ places ↔ Misplaced m rules route e.params i) ∧
    List.Forall₂ (fun i d => ∃ p, e.params[i]? = some p ∧ d = orderReport m rules e p) places ds

theorem isQueryParam_eq_false_iff {e : Endpoint} {p : Property} :
    isQueryParam m rules e p = false ↔ GoesFirst m rules e.route p := by
  have hroute : isRouteParam m rules e p = true ↔
      ∃ name : String, Route.Names e.route.toList name.toList ∧
      equalsIgnoringCase name (m.propertyName rules p.id) = true := by
    rw [isRouteParam, List.any_eq_true]
    simp only [Route.mem_parameterNames]
  rw [GoesFirst, ← hroute, isQueryParam]
  cases isRouteParam m rules e p <;> cases m.isBodyParam p.id <;> simp

theorem isQueryParam_eq_true_iff {e : Endpoint} {p : Property} :
    isQueryParam m rules e p = true ↔ ¬ GoesFirst m rules e.route p := by
  rw [← isQueryParam_eq_false_iff, Bool.not_eq_false]

/-- **The check of an endpoint reports the parameters that are misplaced on its own route.** -/
theorem orderReports_parameterProblems (m : Model) (rules : NamingRules) (e : Endpoint) :
    OrderReports m rules e.route e (parameterProblems m rules e) := by
  obtain ⟨places, hsorted, hmem, hplaces⟩ := exists_places_behind (isQueryParam m rules e) e.params
  refine ⟨places, hsorted, fun i => ?_, ?_⟩
  · rw [hmem, Misplaced]
    simp only [isQueryParam_eq_false_iff, isQueryParam_eq_true_iff]
  · exact List.forall₂_map_right_iff.mpr (hplaces.imp fun i p hp => ⟨p, hp, rfl⟩)

/-- Where the same parameters go first, the same are misplaced. -/
theorem OrderReports.congr {route route' : String} {e : Endpoint} {ds : List Diagnostic}
    (h : OrderReports m rules route e ds)
    (hsame : ∀ p ∈ e.params, GoesFirst m rules route' p ↔ GoesFirst m rules route p) :
    OrderReports m rules route' e ds := by
  obtain ⟨places, hsorted, hmem, hplaces⟩ := h
  refine ⟨places, hsorted, fun i => ?_, hplaces⟩
  rw [hmem]
  refine and_congr (exists_congr fun p => and_congr_right fun hp => ?_)
    (exists_congr fun j => and_congr_right fun _ => exists_congr fun q =>
      and_congr_right fun hq => ?_)
  · exact (hsame p (List.mem_of_getElem? hp)).symm
  · exact not_congr (hsame q (List.mem_of_getElem? hq)).symm

/-- Below a route that names nothing the same parameters go first. -/
theorem goesFirst_full {route : String} {start : Option String}
    (hstart : ∀ text, start = some text → '{' ∉ text.toList) {p : Property} :
    GoesFirst m rules (Route.full route start) p ↔ GoesFirst m rules route p := by
  simp only [GoesFirst, Route.names_full hstart]

end Validation

namespace Store

open Linking Validation

variable {s : Store}

/-- **Parameters out of order are reported exactly, as judged on the own routes of the endpoints**:
in each file, for one endpoint after the other, each parameter that the route names or that is sent
in the body, behind one that is neither.  They are judged as on the full routes where the route that
the file gives to all its endpoints does not change which parameters go first, and so where that
route names nothing. -/
theorem Reachable.parameter_order_exact (h : s.Reachable) : ∀ f ∈ s.link.1.model.files,
    ∃ reports : Endpoint → List Diagnostic,
      (s.link.1.problemsOf f.id).filter (·.kind == .invalidParameterOrder)
        = f.endpoints.flatMap reports ∧
      ∀ e ∈ f.endpoints,
        OrderReports s.link.1.model s.naming e.route e (reports e) ∧
        ∀ full, full = Route.full e.route f.endpointOptions.routePrefix →
          ((∀ p ∈ e.params, GoesFirst s.link.1.model s.naming full p
              ↔ GoesFirst s.link.1.model s.naming e.route p) →
            OrderReports s.link.1.model s.naming full e (reports e)) ∧
          ((∀ start, f.endpointOptions.routePrefix = some start → '{' ∉ start.toList) →
            OrderReports s.link.1.model s.naming full e (reports e)) := by
  have hm := h.drafted.asLoaded
  have hids := (sound_link s.naming hm).numbered.files
  rw [link_model]
  intro f hf
  have hplace : ∀ g ∈ (s.draftModel.link s.naming).model.files,
      ∀ d ∈ g.endpoints.flatMap (parameterProblems (s.draftModel.link s.naming).model s.naming),
      d.file = g.id := by
    intro g hg d hd
    obtain ⟨e, he, hd⟩ := List.mem_flatMap.mp hd
    obtain ⟨p, hp, rfl⟩ := List.mem_map.mp hd
    have hparam : p ∈ e.params := (List.dropWhile_sublist _).subset (List.mem_filter.mp hp).1
    have hproperty : p ∈ g.properties :=
      List.mem_append_right _ (List.mem_flatMap.mpr ⟨e, he, List.mem_append_left _ hparam⟩)
    exact (property_origin hm hg hproperty).1
  refine ⟨parameterProblems (s.draftModel.link s.naming).model s.naming, ?_, fun e he => ?_⟩
  · rw [filter_problemsOf s rfl (by decide), filter_link_parameterOrder s.naming hm,
      Model.endpoints, List.flatMap_assoc]
    exact Model.filter_of_file hids Diagnostic.file hplace hf
  · have hown := orderReports_parameterProblems (s.draftModel.link s.naming).model s.naming e
    refine ⟨hown, ?_⟩
    rintro full rfl
    exact ⟨hown.congr, fun hstart => hown.congr fun p _ => goesFirst_full hstart⟩

/-- A store with an endpoint of which the route of its file names the first parameter and its own
route the second. -/
def tenants : Store :=
  loadAll {} [("A", "module: M\noptions:\n endpoints:\n  prefix: api/{tenant}\n"
    ++ "---\nendpoint:\n name: Get\n method: GET\n route: /{id}\n params:\n"
    ++ " - name: Tenant\n   domain: D\n - name: Id\n   domain: D")]

/-- There the second parameter is reported, although on the full route both go first and none is
misplaced. -/
theorem parameter_order_exact_in_tenants :
    tenants.Reachable ∧ ∃ f ∈ tenants.link.1.model.files, ∃ e ds, f.endpoints = [e] ∧
      (tenants.link.1.problemsOf f.id).filter (·.kind == .invalidParameterOrder) = ds ∧
      ds.map (·.message)
        = ["Le paramètre 'Id' de l'endpoint 'Get' doit être déclaré avant les paramètres de query."] ∧
      OrderReports tenants.link.1.model tenants.naming e.route e ds ∧
      ∀ p ∈ e.params, GoesFirst tenants.link.1.model tenants.naming
        (Route.full e.route f.endpointOptions.routePrefix) p := by
  have hreach : tenants.Reachable := reachable_loadAll {} _
  have hrun : (tenants.link.1.model.files.any fun f => f.endpoints.length == 1 &&
      ((tenants.link.1.problemsOf f.id).filter (·.kind == .invalidParameterOrder)).map (·.message)
        == ["Le paramètre 'Id' de l'endpoint 'Get' doit être déclaré avant les paramètres de query."] &&
      f.endpoints.all fun e => e.params.all fun p =>
        !isQueryParam tenants.link.1.model tenants.naming
        { e with route := Route.full e.route f.endpointOptions.routePrefix } p) = true := by
    have hspelled : tenants = _ :=
      loadAll_eq_foldl
        (.cons (toList_append_eq (toList_append_eq String.toList_ofList String.toList_ofList)
          String.toList_ofList) .nil)
    rw [hspelled]
    decide +kernel
  obtain ⟨f, hf, hrun⟩ := List.any_eq_true.mp hrun
  simp only [Bool.and_eq_true, beq_iff_eq] at hrun
  obtain ⟨⟨hone, hmessage⟩, hall⟩ := hrun
  obtain ⟨e, he⟩ := List.length_eq_one_iff.mp hone
  obtain ⟨reports, hreports, hexact⟩ := Reachable.parameter_order_exact hreach f hf
  rw [he, List.flatMap_singleton] at hreports
  rw [he, List.all_cons, List.all_nil, Bool.and_true, List.all_eq_true] at hall
  refine ⟨hreach, f, hf, e, reports e, he, hreports, hreports ▸ hmessage,
    (hexact e (he ▸ List.mem_cons_self)).1, fun p hp => ?_⟩
  have hfirst := hall p hp
  rw [Bool.not_eq_true'] at hfirst
  exact isQueryParam_eq_false_iff.mp hfirst

end Store

end EntityModel
