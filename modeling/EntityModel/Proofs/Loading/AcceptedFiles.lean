import EntityModel.Proofs.Loading.AcceptedEntities
import EntityModel.Proofs.Loading.Declarations
import EntityModel.Proofs.Source.Making

/-!
# The loader accepts exactly the model language

A file is taken when its documents have the form that the grammar asks for, and only then; whatever
is refused is refused with an error that has the file and a place in it.
-/

namespace EntityModel.Loading

open Source Grammar

/-! ### Entities -/

theorem takes_entityEnd (o : Offset) (rest : List Entry) {stop : Event}
    (hstop : stop.kind = .mappingEnd) (f : ModelFile) :
    Takes (do
        if ← Read.consumeIf .mappingEnd then return f
        Read.fail .severalEntities (← Read.location))
      (Node.entryEvents o rest ++ [stop]) rest.isEmpty fun f' => f' = f ∧ rest = [] := by
  cases rest with
  | nil =>
    have hend : stop.kind.alike .mappingEnd = true := by rw [hstop]; rfl
    show Takes _ ([stop] ++ []) _ _
    refine Takes.bind_taken (Takes.consumeIf hend) fun b hb => ?_
    subst hb
    exact .pure ⟨rfl, rfl⟩
  | cons e rest => exact .passBy rfl (.location fun l => .fail _ _)

/-- What an entity adds to its file is what its document declares. -/
theorem takes_entity (ctx : Context) (f : ModelFile) (o : Offset) (node : Node) :
    Takes (entity ctx f) (node.events o) (Grammar.entity node) fun f' =>
      ∃ x, f' = f.declare x ∧ Declares ctx.ns o node x := by
  refine .firstKey (fun node h => ?_) fun start stop key value rest opening hnode => ?_
  · unfold Grammar.entity
    split
    · exact absurd h (List.cons_ne_nil _ _)
    · rfl
  have hshape : Grammar.entity node = (fits entityKeys key.text value && rest.isEmpty) := by
    rw [hnode]
    cases rest <;> simp [Grammar.entity]
  have hend : ∀ x : Declaration, key.text = x.word → x.location = o.ofScalar key →
      text? x.title.1 (entriesOf value) = some x.title.2 → (∀ n ∈ x.ns?, n = ctx.ns) → ∀ f',
      f' = f.declare x ∧ rest = [] → ∃ x, f' = f.declare x ∧ Declares ctx.ns o node x := by
    rintro x hword hlocation htitle hns _ ⟨rfl, rfl⟩
    exact ⟨x, rfl, ⟨start, stop, key, value, hnode, hword, hlocation, htitle⟩, hns⟩
  rw [hshape]
  obtain ⟨key, at_⟩ := key
  dsimp only
  split
  · refine (reads_key rfl (reads_domain _ _) o value).bind fun d _ ⟨hlocation, hname⟩ => ?_
    exact (takes_entityEnd o rest rfl _).mono
      (hend (.domain d) rfl hlocation hname fun _ hn => nomatch hn)
  · refine (reads_key rfl (reads_decorator ctx _ _) o value).bind fun d _ ⟨hlocation, hns, hname⟩ =>
      ?_
    exact (takes_entityEnd o rest rfl _).mono
      (hend (.decorator d) rfl hlocation hname fun _ hn => (Option.mem_some.mp hn).symm.trans hns)
  · refine (reads_key rfl (reads_cls ctx _ _) o value).bind fun c _ ⟨hlocation, hns, hname⟩ => ?_
    exact (takes_entityEnd o rest rfl _).mono
      (hend (.cls c) rfl hlocation hname fun _ hn => (Option.mem_some.mp hn).symm.trans hns)
  · refine (reads_key rfl (reads_endpoint ctx _ _) o value).bind fun e _ ⟨hlocation, hns, hname⟩ =>
      ?_
    exact (takes_entityEnd o rest rfl _).mono
      (hend (.endpoint e) rfl hlocation hname fun _ hn => (Option.mem_some.mp hn).symm.trans hns)
  · refine (reads_key rfl (reads_fileAlias _ _) o value).bind fun a _ ⟨hlocation, hfile⟩ => ?_
    exact (takes_entityEnd o rest rfl _).mono
      (hend (.fileAlias a) rfl hlocation hfile fun _ hn => nomatch hn)
  · have hnone : entityKeys.lookup key = none := by simp_all [entityKeys, List.lookup_eq_none_iff]
    have hfits : fits entityKeys key value = false := by
      rw [fits, hnone]
      rfl
    rw [hfits]
    exact Takes.bind_failed (Q := fun _ => True) (.fail _ _)

/-! ### Files -/

/-- The tree of a document and where its events lie. -/
structure DocumentTree where
  root : Node
  offset : Offset
  start : Location
  stop : Location

def DocumentTree.events (d : DocumentTree) : List Event :=
  ⟨.documentStart, d.start⟩ :: (d.root.events d.offset ++ [⟨.documentEnd, d.stop⟩])

def streamEvents (start stop : Location) (documents : List DocumentTree) : List Event :=
  ⟨.streamStart, start⟩ :: ((documents.map DocumentTree.events).flatten ++ [⟨.streamEnd, stop⟩])

variable {β : Type} {P : β → Prop}

/-- What the documents behind the header declare, one for each. -/
def Declared (ns : Namespace) (documents : List DocumentTree) (xs : List Declaration) : Prop :=
  List.Forall₂ (fun d x => Declares ns d.offset d.root x) documents xs

/-- The documents behind the header, up to the end of the file, which stays for `g`. -/
theorem takes_entities (ctx : Context) {stop : Location} {g : ModelFile → Read β}
    (documents : List DocumentTree) :
    ∀ fuel f, documents.length < fuel →
      (∀ xs, Declared ctx.ns documents xs →
        Takes (g (xs.foldl ModelFile.declare f)) [⟨.streamEnd, stop⟩] true P) →
      Takes (entities ctx fuel f >>= g)
      ((documents.map DocumentTree.events).flatten ++ [⟨.streamEnd, stop⟩])
        (documents.all fun d => Grammar.entity d.root) P := by
  induction documents with
  | nil =>
    rintro (_ | fuel) f hfuel hg
    · exact absurd hfuel (Nat.not_lt_zero _)
    rw [entities, bind_assoc]
    exact .passBy rfl (hg [] .nil)
  | cons d documents ih =>
    rintro (_ | fuel) f hfuel hg
    · exact absurd hfuel (Nat.not_lt_zero _)
    set later := (documents.map DocumentTree.events).flatten ++ [⟨.streamEnd, stop⟩] with hlater
    set okLater := documents.all fun d => Grammar.entity d.root with hok
    have hevents : ((d :: documents).map DocumentTree.events).flatten ++ [⟨.streamEnd, stop⟩]
        = [⟨.documentStart, d.start⟩]
          ++ (d.root.events d.offset ++ ([⟨.documentEnd, d.stop⟩] ++ later)) := by
      simp [DocumentTree.events, hlater]
    have hdocument : Takes (do
          let f ← entity ctx f
          let _ ← Read.expect .documentEnd
          entities ctx fuel f >>= g)
        (d.root.events d.offset ++ ([⟨.documentEnd, d.stop⟩] ++ later))
          (Grammar.entity d.root && okLater) P := by
      refine (takes_entity ctx f d.offset d.root).bind fun f' _ ⟨x, hf', hx⟩ => ?_
      refine Takes.bind_taken (Takes.expect rfl) fun _ _ => ?_
      subst hf'
      exact ih fuel _ (by simpa using hfuel) fun xs hxs => hg (x :: xs) (.cons hx hxs)
    rw [entities, bind_assoc, hevents, List.all_cons]
    refine Takes.bind_taken (Takes.consumeIf rfl) fun b hb => ?_
    subst hb
    simpa only [if_true, bind_assoc] using hdocument

theorem length_documents_le (documents : List DocumentTree) :
    documents.length ≤ (documents.map DocumentTree.events).flatten.length := by
  induction documents with
  | nil => exact Nat.le_refl _
  | cons d documents ih =>
    simp only [List.map_cons, List.flatten_cons, List.length_append, DocumentTree.events,
      List.length_cons]
    omega

structure MadeOf (app : String) (header : DocumentTree) (later : List DocumentTree)
    (f : ModelFile) : Prop where
  header : text? "module" (entriesOf header.root) = some f.ns.modulePath
  app : f.ns.app = app
  later : ∃ xs, Declared f.ns later xs ∧ f.Holds xs

theorem takes_file (id : FileId) (name app : String) (naming : NamingRules) (start stop : Location)
    (first : DocumentTree) (rest : List DocumentTree) :
    Takes (file id name app naming) (streamEvents start stop (first :: rest))
      (Grammar.file ((first :: rest).map DocumentTree.root)) fun o => ∃ f, o = some f ∧
        MadeOf app first rest f := by
  set later := (rest.map DocumentTree.events).flatten ++ [⟨.streamEnd, stop⟩] with hlater
  have hevents : streamEvents start stop (first :: rest)
      = [⟨.streamStart, start⟩]
        ++ ([⟨.documentStart, first.start⟩] ++ (first.root.events first.offset ++
          ([⟨.documentEnd, first.stop⟩] ++ later))) := by
    simp [streamEvents, DocumentTree.events, hlater]
  have hok : Grammar.file ((first :: rest).map DocumentTree.root)
      = (Grammar.header first.root && rest.all fun d => Grammar.entity d.root) := by
    simp only [Grammar.file, List.map_cons, List.all_map]
    rfl
  rw [hevents, hok]
  set ok := rest.all fun d => Grammar.entity d.root
  refine Takes.bind_taken (Takes.expect rfl) fun _ _ => ?_
  refine Takes.passBy rfl ?_
  show Takes (Read.expect .documentStart >>= _) ([_] ++ _) _ _
  refine Takes.bind_taken (Takes.expect rfl) fun opening _ => ?_
  refine (reads_header opening.location first.offset first.root).bind fun header _ hmodule => ?_
  refine Takes.bind_taken (Takes.expect rfl) fun _ _ => ?_
  refine Takes.withRest fun n hn => takes_entities _ rest n _ ?_ fun xs hxs => ?_
  · refine Nat.lt_of_le_of_lt (length_documents_le rest) (Nat.lt_of_le_of_lt ?_ hn)
    rw [List.length_append]
    exact Nat.le_add_right _ _
  · refine (Takes.expect rfl).map fun _ _ => ⟨_, rfl, ?_, ?_, xs, ?_, ?_⟩
    · rw [ModelFile.ns_foldl_declare]
      exact hmodule
    · rw [ModelFile.ns_foldl_declare]
    · rw [ModelFile.ns_foldl_declare]
      exact hxs
    · exact ModelFile.Holds.nil.foldl xs

/-! ### Texts -/

def DocumentTree.ofDocument (id : FileId) (d : Document) (root : Node) : DocumentTree where
  root := root
  offset := ⟨id, d.firstLine⟩
  start := .point id d.firstLine 0
  stop := ((root.events ⟨id, d.firstLine⟩).getLast?.map Event.location).getD
    (.point id d.firstLine 0)

theorem events_ofDocument (id : FileId) {d : Document} {root : Node}
    (h : Node.ofText d.text = .ok root) :
    d.events id = .ok (DocumentTree.ofDocument id d root).events := by
  unfold Document.events
  rw [h]
  rfl

theorem exists_trees (id : FileId) (fault : Document → DocumentFault → LoadError)
    (documents : List Document) :
    ∀ roots : List Node, documents.map (fun d => Node.ofText d.text) = roots.map .ok →
      ∃ trees : List DocumentTree, trees.map DocumentTree.root = roots
        ∧ documents.map (fun d => (d.events id).mapError (fault d))
          = (trees.map DocumentTree.events).map .ok := by
  induction documents with
  | nil =>
    intro roots h
    exact ⟨[], (List.map_eq_nil_iff.mp h.symm).symm, rfl⟩
  | cons d documents ih =>
    rintro (_ | ⟨root, roots⟩) h
    · exact absurd h (List.cons_ne_nil _ _)
    rw [List.map_cons, List.map_cons, List.cons_eq_cons] at h
    obtain ⟨trees, hroots, hevents⟩ := ih roots h.2
    refine ⟨.ofDocument id d root :: trees, ?_, ?_⟩
    · rw [List.map_cons, hroots]
      rfl
    · rw [List.map_cons, hevents, events_ofDocument id h.1]
      rfl

/-- The trees of the documents of a text, if it has documents and each has a tree. -/
def roots? (source : String) : Option (List Node) := do
  let documents ← (Document.split source.toList).toOption
  (documents.mapM fun d => Node.ofText d.text).toOption

theorem events_eq_streamEvents (id : FileId) (name : String) {source : String} {roots : List Node}
    (h : roots? source = some roots) :
    ∃ start stop trees, trees.map DocumentTree.root = roots
      ∧ Source.events id name source = .ok (streamEvents start stop trees) := by
  obtain ⟨documents, hsplit, hroots⟩ := Option.bind_eq_some_iff.mp h
  replace hsplit := eq_ok_of_toOption hsplit
  replace hroots := eq_ok_of_toOption hroots
  obtain ⟨trees, htrees, hevents⟩ := exists_trees id
    (fun d fault => ⟨.invalidDocument fault, name, some (.point id d.firstLine 0)⟩) documents roots
    (mapM_eq_ok_iff.mp hroots)
  refine ⟨.point id 0 0, .point id (Text.lines source.toList).length 0, trees, htrees, ?_⟩
  unfold Source.events eventsOf
  rw [hsplit]
  show (documents.mapM _ >>= _ : Except LoadError (List Event)) = _
  rw [mapM_eq_ok_iff.mpr hevents]
  rfl

/-! ### What is accepted -/

/-- What the file gives that a reader has come through. -/
def outcome : EStateM.Result LoadError Reader (Option ModelFile) →
    Except LoadError (Option ModelFile)
  | .ok f _ => .ok f
  | .error e _ => .error e

/-- A file exactly if it is accepted, and otherwise an error with the name of the file and a
place. -/
def Decides (name : String) (accepted : Bool) (result : Except LoadError (Option ModelFile)) :
    Prop :=
  ((∃ f, result = .ok (some f)) ↔ accepted = true)
    ∧ (accepted = false → ∃ e, result = .error e ∧ e.file = name ∧ e.location.isSome = true)

theorem decides_of_outcome {name : String} {rest : List Event} {ending : Location} {accepted : Bool}
    {result : EStateM.Result LoadError Reader (Option ModelFile)}
    (h : Outcome name rest ending accepted (·.isSome = true) result) :
    Decides name accepted (outcome result) := by
  cases result with
  | error e r =>
    obtain ⟨rfl, hfile, hplace⟩ := h
    refine ⟨⟨fun ⟨f, hf⟩ => ?_, fun h => absurd h Bool.false_ne_true⟩,
      fun _ => ⟨e, rfl, hfile, hplace⟩⟩
    exact nomatch hf
  | ok f r =>
    obtain ⟨rfl, hsome, -⟩ := h
    obtain ⟨f, rfl⟩ := Option.isSome_iff_exists.mp hsome
    exact ⟨⟨fun _ => rfl, fun _ => ⟨f, rfl⟩⟩, fun h => absurd h.symm Bool.false_ne_true⟩

theorem decides_streamEvents (id : FileId) (name app : String) (naming : NamingRules)
    (start stop : Location) (first : DocumentTree) (rest : List DocumentTree) :
    Decides name (Grammar.file ((first :: rest).map DocumentTree.root))
      (outcome ((file id name app naming).run
        (.ofEvents name (streamEvents start stop (first :: rest))))) := by
  have hfile : Takes (file id name app naming) (streamEvents start stop (first :: rest))
      (Grammar.file ((first :: rest).map DocumentTree.root)) (·.isSome = true) :=
    (takes_file id name app naming start stop first rest).mono fun _ ⟨_, hsome, _⟩ => hsome ▸ rfl
  have h := hfile name [] (Reader.ofEvents name (streamEvents start stop (first :: rest))).ending
  rw [List.append_nil] at h
  exact decides_of_outcome h

end EntityModel.Loading

namespace EntityModel

open Source

/-- **The loader accepts exactly the model language**: a file is taken if its documents are a header
and entities of the form that the grammar gives them, and only then; any other is refused with an
error that has the name of the file and a place in it.  This holds of all trees that documents may
have, and so of every text that has documents. -/
theorem ModelFile.accepted_iff_grammar (id : FileId) (name app : String) (naming : NamingRules) :
    (∀ (start stop : Location) (first : Loading.DocumentTree) (rest : List Loading.DocumentTree),
      Loading.Decides name (Grammar.file ((first :: rest).map Loading.DocumentTree.root))
        (Loading.outcome ((Loading.file id name app naming).run
          (.ofEvents name (Loading.streamEvents start stop (first :: rest))))))
    ∧ ∀ (source : String) (roots : List Node), Loading.roots? source = some roots → roots ≠ [] →
      Loading.Decides name (Grammar.file roots) (ModelFile.load id name source app naming) := by
  refine ⟨Loading.decides_streamEvents id name app naming, fun source roots hroots hnonempty => ?_⟩
  obtain ⟨start, stop, trees, rfl, hevents⟩ := Loading.events_eq_streamEvents id name hroots
  cases trees with
  | nil => exact absurd rfl hnonempty
  | cons first rest =>
    have hload : ModelFile.load id name source app naming
        = Loading.outcome ((Loading.file id name app naming).run
          (.ofEvents name (Loading.streamEvents start stop (first :: rest)))) := by
      unfold ModelFile.load
      rw [hevents]
      rfl
    rw [hload]
    exact Loading.decides_streamEvents id name app naming start stop first rest

/-- A class with a decorator that is given by its name alone. -/
def bareUsage : String := "module: M\n---\nclass:\n name: A\n decorators: [~]"

/-- A name that stands alone is taken as it is written, so that `~` is one. -/
theorem accepted_of_bareUsage : ∃ f, ModelFile.load ⟨0⟩ "A" bareUsage "App" {} = .ok (some f) := by
  have hgrammar : (Loading.roots? bareUsage).any Grammar.file = true := by decide +kernel
  obtain ⟨roots, hroots, haccepted⟩ := (Option.any_eq_true ..).mp hgrammar
  have hnonempty : roots ≠ [] := fun h => by
    rw [h] at haccepted
    exact absurd haccepted Bool.false_ne_true
  exact ((ModelFile.accepted_iff_grammar ⟨0⟩ "A" "App" {}).2 bareUsage roots hroots hnonempty).1.mpr
    haccepted

end EntityModel
