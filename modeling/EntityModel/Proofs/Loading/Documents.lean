import EntityModel.Proofs.Loading.AcceptedFiles
import EntityModel.Proofs.Loading.Numbering
import EntityModel.Proofs.Source.Splitting

/-!
# A loaded file says what its documents say

Each document behind the header declares one entity or alias of the file.  None is lost, none counts
twice, and each list keeps the order of its documents (`ModelFile.load_documents`).
-/

namespace EntityModel.Loading

open Source Grammar

variable {id : FileId} {name source app : String} {naming : NamingRules} {f : ModelFile}

def Parsed (id : FileId) (d : Document) (t : DocumentTree) : Prop :=
  ∃ root, Node.ofText d.text = .ok root ∧ t = .ofDocument id d root

theorem parsed_of_events {d : Document} {events : List Event} (h : d.events id = .ok events) :
    ∃ t, Parsed id d t ∧ events = t.events := by
  obtain ⟨root, hroot, h⟩ := exists_of_bind h
  exact ⟨.ofDocument id d root, ⟨root, hroot, rfl⟩, (Except.ok.inj h).symm⟩

theorem exists_parsed {documents : List Document} {bodies : List (List Event)}
    (h : List.Forall₂ (fun d body => d.events id = .ok body) documents bodies) :
    ∃ trees, List.Forall₂ (Parsed id) documents trees ∧ bodies = trees.map DocumentTree.events := by
  induction h with
  | nil => exact ⟨[], .nil, rfl⟩
  | cons hbody _ ih =>
    obtain ⟨trees, htrees, rfl⟩ := ih
    obtain ⟨t, ht, rfl⟩ := parsed_of_events hbody
    exact ⟨t :: trees, .cons ht htrees, rfl⟩

/-- The events of a file are those of the trees of its documents. -/
theorem streamEvents_of_events {events : List Event}
    (h : Source.events id name source = .ok events) :
    ∃ documents trees start stop, Document.split source.toList = .ok documents ∧
      List.Forall₂ (Parsed id) documents trees ∧ events = streamEvents start stop trees := by
  obtain ⟨documents, hsplit, h⟩ := exists_of_bind h
  obtain ⟨bodies, hbodies, h⟩ := exists_of_bind h
  obtain ⟨trees, htrees, rfl⟩ :=
    exists_parsed ((mapM_eq_ok_iff_forall₂.mp hbodies).imp fun _ _ => ok_of_mapError)
  exact ⟨documents, trees, _, _, ok_of_mapError hsplit, htrees, (Except.ok.inj h).symm⟩

theorem file_of_none (ident : FileId) (naming : NamingRules) (start stop : Location) :
    (file ident name app naming).run (.ofEvents name (streamEvents start stop [])) = .ok none
      ⟨name, [], (Reader.ofEvents name (streamEvents start stop [])).ending⟩ := rfl

/-- A file that is loaded is made of the trees of its documents. -/
theorem madeOf_of_load (h : ModelFile.load id name source app naming = .ok (some f)) :
    ∃ documents header later, Document.split source.toList = .ok documents ∧
      List.Forall₂ (Parsed id) documents (header :: later) ∧ MadeOf app header later f := by
  obtain ⟨events, r, hevents, hrun⟩ := ModelFile.exists_run_of_load h
  obtain ⟨documents, trees, start, stop, hsplit, hparsed, rfl⟩ := streamEvents_of_events hevents
  cases trees with
  | nil => exact nomatch (file_of_none id naming start stop).symm.trans hrun
  | cons header later =>
    refine ⟨documents, header, later, hsplit, hparsed, ?_⟩
    have htakes := takes_file id name app naming start stop header later name []
      (Reader.ofEvents name (streamEvents start stop (header :: later))).ending
    rw [List.append_nil] at htakes
    change Outcome _ _ _ _ _
      (file id name app naming (Reader.ofEvents name (streamEvents start stop (header :: later))))
        at htakes
    rw [hrun] at htakes
    obtain ⟨-, ⟨f', hf', hmade⟩, -⟩ := htakes
    exact Option.some.inj hf' ▸ hmade

theorem Declared.ns_eq {ns : Namespace} {documents : List DocumentTree} {xs : List Declaration}
    (h : Declared ns documents xs) {x : Declaration} (hx : x ∈ xs) {n : Namespace}
    (hn : x.ns? = some n) : n = ns := by
  obtain ⟨i, hi, rfl⟩ := List.mem_iff_getElem.mp hx
  have hi' : i < documents.length := h.length_eq ▸ hi
  exact (h.get hi' hi).ns n hn

end EntityModel.Loading

namespace EntityModel

open Source Loading

variable {id : FileId} {name source app : String} {naming : NamingRules} {f : ModelFile}

/-- **A loaded file says what its documents say.**  The first of them is the header.  Behind it each
document declares one entity or alias, at its own place, and the five lists of the file hold these
in order and nothing else, numbered by their places and in the namespace of the module; nothing
points anywhere yet, and every place lies in the file.  In a file whose lines hold no CR these are
all documents of the stream that hold something. -/
theorem ModelFile.load_documents (h : load id name source app naming = .ok (some f)) :
    ∃ documents header later xs, Document.split source.toList = .ok documents
      ∧ List.Forall₂ (Parsed id) documents (header :: later)
      ∧ Grammar.text? "module" (Grammar.entriesOf header.root) = some f.ns.modulePath ∧
      f.ns.app = app
      ∧ Declared f.ns later xs ∧ f.Holds xs
      ∧ f.id = id ∧ f.Numbered ∧ NumberedBy Alias.id id f.aliases ∧ f.Fresh
      ∧ (∀ c ∈ f.classes, c.ns = f.ns) ∧ (∀ e ∈ f.endpoints, e.ns = f.ns)
      ∧ ((∀ line ∈ Text.lines source.toList, '\r' ∉ line) →
          documents = ((Document.bounds none (Yaml.OneTwo.events source.toList).events).map
            (Document.wholeLines (Text.lines source.toList))).filter fun d => !d.isBlank) := by
  obtain ⟨documents, header, later, hsplit, hparsed, hheader, happ, xs, hdeclared, hholds⟩ :=
    madeOf_of_load h
  obtain ⟨hid, -, hnumbered⟩ := numbered_of_load h
  refine ⟨documents, header, later, xs, hsplit, hparsed, hheader, happ, hdeclared, hholds,
    hid, hnumbered, hid ▸ aliases_numbered_of_load h, fresh_of_load h, fun c hc => ?_, fun e he =>
      ?_, fun hcr => ?_⟩
  · rw [hholds.classes, List.mem_filterMap] at hc
    obtain ⟨x, hx, hcls⟩ := hc
    exact hdeclared.ns_eq hx (Declaration.ns?_of_cls? hcls)
  · rw [hholds.endpoints, List.mem_filterMap] at he
    obtain ⟨x, hx, hendpoint⟩ := he
    exact hdeclared.ns_eq hx (Declaration.ns?_of_endpoint? hendpoint)
  · exact Except.ok.inj
      (hsplit.symm.trans (Document.split_eq (Document.accepted_of_split hsplit) hcr))

/-- A module with documents of three kinds, one of them empty. -/
def mixedDocuments : String :=
  "module: M\n---\ndomain:\n  name: D\n---\n# nothing\n---\nclass:\n  name: A\n---\ndomain:\n  name: E\n---\nalias:\n  file: F\n"

theorem ModelFile.load_mixedDocuments :
    ∃ f documents later xs, load ⟨0⟩ "A" mixedDocuments "App" {} = .ok (some f)
    ∧ Document.split mixedDocuments.toList = .ok documents ∧
    documents.map Document.firstLine = [0, 1, 6, 9, 12]
    ∧ Declared f.ns later xs ∧ f.Holds xs ∧ f.ns = ⟨"App", "M"⟩ ∧ f.Numbered ∧ f.Fresh
    ∧ f.domains.map (·.name.value) = ["D", "E"] := by
  have hspelled : mixedDocuments.toList = _ := String.toList_ofList
  have hfile : ((load ⟨0⟩ "A" mixedDocuments "App" {}).toOption.join.map fun f =>
      (f.ns.modulePath, f.domains.map (·.name.value))) = some ("M", ["D", "E"]) := by
    unfold load Source.events
    rw [hspelled]
    decide +kernel
  obtain ⟨f, hf, hvalues⟩ := Option.map_eq_some_iff.mp hfile
  have hload : load ⟨0⟩ "A" mixedDocuments "App" {} = .ok (some f) :=
    eq_ok_of_toOption (Option.join_eq_some_iff.mp hf)
  obtain ⟨hmodule, hdomains⟩ := Prod.mk.inj hvalues
  obtain ⟨documents, header, later, xs, hsplit, -, -, happ, hdeclared, hholds, -, hnumbered, -,
      hfresh, -, -, hdocuments⟩ :=
    load_documents hload
  have hlines : documents.map Document.firstLine = [0, 1, 6, 9, 12] := by
    have hlf : ∀ line ∈ Text.lines mixedDocuments.toList, '\r' ∉ line := by
      rw [hspelled]
      decide +kernel
    rw [hdocuments hlf, hspelled]
    decide +kernel
  have hns : f.ns = ⟨"App", "M"⟩ := by rw [← happ, ← hmodule]
  exact ⟨f, documents, later, xs, hload, hsplit, hlines, hdeclared, hholds, hns, hnumbered,
    hfresh, hdomains⟩

end EntityModel
