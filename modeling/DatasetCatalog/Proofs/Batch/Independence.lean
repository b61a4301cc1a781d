import DatasetCatalog.Proofs.Batch.Isolation
import DatasetCatalog.Proofs.Catalog.Frame
import Mathlib.Data.List.Pairwise

/-!
# Independent documents

Documents are independent if no identity is carried by two of them. What one of them is judged by
and what it brings then does not depend on whether the others have come before: each fares as it
would alone, on the catalog as it was before the batch. So a batch of them is sorted by a verdict
on single documents, and leaves the records that each would bring alone, in whatever order they
come.
-/

namespace DatasetCatalog.Indexing

/-- No identity is carried by both documents. -/
def Independent (layout : Layout) (d e : String × Document) : Prop :=
  (layout.identities d.2).Disjoint (layout.identities e.2)

instance (layout : Layout) : Std.Symm (Independent layout) := ⟨fun _ _ => List.disjoint_symm⟩

inductive Verdict
  | added
  | refused
  | unresolved
deriving DecidableEq

/-- How a document fares alone. -/
def verdict (r : Resolver) (withLineage : Bool) (c : Catalog) (d : String × Document) : Verdict :=
  match r.resolveChecked c d.2 d.1 with
  | .error _ => .unresolved
  | .ok g =>
    match c.add g withLineage default with
    | .error _ => .refused
    | .ok _ => .added

/-- The records that a document brings alone, without times. -/
def news (r : Resolver) (withLineage : Bool) (c : Catalog) (d : String × Document) :
    List StoredDataset :=
  match r.resolveChecked c d.2 d.1 with
  | .error _ => []
  | .ok g =>
    match c.additions g withLineage default with
    | .error _ => []
    | .ok records => records.map (StoredDataset.retimed .undating)

variable {r : Resolver} {withLineage : Bool} {c c' : Catalog} {d : String × Document}

/-! ## One document -/

/-- The catalog `c` judges a document like this at time `now`, and records these datasets. -/
inductive Fares (r : Resolver) (withLineage : Bool) (c : Catalog) (now : Timestamp)
    (d : String × Document) : Verdict → List StoredDataset → Prop
  | added {g : DatasetGraph} {records : List StoredDataset} :
    r.resolveChecked c d.2 d.1 = .ok g →
    c.add g withLineage now = .ok (records.foldl Catalog.insert c) →
    Fares r withLineage c now d .added (records.map (StoredDataset.retimed .undating))
  | refused {g : DatasetGraph} {e : CatalogError} :
    r.resolveChecked c d.2 d.1 = .ok g → c.add g withLineage now = .error e →
    Fares r withLineage c now d .refused []
  | unresolved {e : ResolveError} :
    r.resolveChecked c d.2 d.1 = .error e → Fares r withLineage c now d .unresolved []

/-- The same records are made at any time, apart from the time. -/
theorem additions_undated (c : Catalog) (g : DatasetGraph) (withLineage : Bool)
    (now later : Timestamp) :
    (c.additions g withLineage now).map (List.map (StoredDataset.retimed .undating)) =
      (c.additions g withLineage later).map (List.map (StoredDataset.retimed .undating)) := by
  rw [Catalog.additions, Catalog.additions]
  cases g.rootDataset.id with
  | none => rfl
  | some root =>
      have hpending : ∀ now later, ∀ n ∈ g.nodes.zipIdx,
          (c.pending g withLineage now root n.1 n.2).map
              (Option.map (StoredDataset.retimed .undating)) =
            (c.pending g withLineage later root n.1 n.2).map
              (Option.map (StoredDataset.retimed .undating)) := fun _ _ n _ =>
        (Catalog.pending_undated default root n.1 n.2).symm.trans
          (Catalog.pending_undated default root n.1 n.2)
      have hrecords : ∀ now, ((g.nodes.zipIdx.mapM fun n =>
            c.pending g withLineage now root n.1 n.2).map (List.filterMap id)).map
              (List.map (StoredDataset.retimed .undating)) =
          (g.nodes.zipIdx.mapM fun n => (c.pending g withLineage now root n.1 n.2).map
            (Option.map (StoredDataset.retimed .undating))).map (List.filterMap id) := by
        intro now
        rw [← map_mapM]
        cases g.nodes.zipIdx.mapM fun n => c.pending g withLineage now root n.1 n.2 with
        | error e => rfl
        | ok pendings =>
            refine congrArg Except.ok ?_
            rw [List.map_filterMap, List.filterMap_map]
            rfl
      dsimp only
      split
      next => rfl
      next => rw [hrecords, hrecords, mapM_congr (hpending now later)]

/-- Whatever agrees with the catalog on the identities of a document judges it like the catalog. -/
theorem fares_of_agreesOn (h : Catalog.AgreesOn (r.layout.identities d.2) c c')
    (withLineage : Bool) (now : Timestamp) :
    Fares r withLineage c' now d (verdict r withLineage c d) (news r withLineage c d) := by
  have hresolve := Resolver.resolveChecked_congr h d.1
  rw [verdict, news]
  cases hg : r.resolveChecked c d.2 d.1 with
  | error e => exact .unresolved (hresolve.trans hg)
  | ok g =>
      obtain ⟨hresolved, -⟩ := Resolver.resolveChecked_eq_ok hg
      have hsame : c'.additions g withLineage now = c.additions g withLineage now :=
        h.additions (Resolver.uris_root_of_resolve hresolved).1 fun n hn id hid =>
          Resolver.mem_identities_of_resolve hresolved hn hid
      have htimes := additions_undated c g withLineage default now
      have hadd := Catalog.add_eq_additions c' g withLineage now
      dsimp only
      rw [Catalog.add_eq_additions]
      rw [hsame] at hadd
      cases hnow : c.additions g withLineage now with
      | error e =>
          rw [hnow] at htimes hadd
          cases halone : c.additions g withLineage default with
          | error e' => exact .refused (hresolve.trans hg) hadd
          | ok records => rw [halone] at htimes; cases htimes
      | ok records =>
          rw [hnow] at htimes hadd
          cases halone : c.additions g withLineage default with
          | error e' => rw [halone] at htimes; cases htimes
          | ok records' =>
              rw [halone] at htimes
              dsimp only [Except.map]
              rw [Except.ok.inj htimes]
              exact .added (hresolve.trans hg) hadd

/-- What brings a record resolves and is accepted. -/
theorem news_eq_of_mem {stored : StoredDataset} (h : stored ∈ news r withLineage c d) :
    ∃ g records, r.resolveChecked c d.2 d.1 = .ok g ∧
      c.additions g withLineage default = .ok records ∧
      news r withLineage c d = records.map (StoredDataset.retimed .undating) := by
  rw [news] at h ⊢
  split at h
  next => cases h
  next g hg =>
    split at h
    next => cases h
    next records hrecords => exact ⟨g, records, hg, hrecords, rfl⟩

/-- Everything that a document brings has an identity that it carries. -/
theorem mem_identities_of_news {stored : StoredDataset} (h : stored ∈ news r withLineage c d) :
    stored.id ∈ r.layout.identities d.2 := by
  obtain ⟨g, records, hg, hrecords, hnews⟩ := news_eq_of_mem h
  rw [hnews] at h
  obtain ⟨new, hnew, rfl⟩ := List.mem_map.mp h
  obtain ⟨k, n, hn, hid, -⟩ := Catalog.mem_additions hrecords hnew
  exact Resolver.mem_identities_of_resolve (Resolver.resolveChecked_eq_ok hg).1
    (List.mem_of_getElem? hn) hid

theorem eq_of_mem_news {stored other : StoredDataset} (h : stored ∈ news r withLineage c d)
    (h' : other ∈ news r withLineage c d) (hsame : stored.id = other.id) : stored = other := by
  obtain ⟨g, records, hg, hrecords, hnews⟩ := news_eq_of_mem h
  rw [hnews] at h h'
  obtain ⟨new, hnew, rfl⟩ := List.mem_map.mp h
  obtain ⟨new', hnew', rfl⟩ := List.mem_map.mp h'
  have hordered := Resolver.ordered_of_resolve (Resolver.resolveChecked_eq_ok hg).1
  rw [Catalog.eq_of_mem_additions hordered hrecords hnew hnew' hsame]

/-! ## A batch -/

section Batch

variable {docs docs' : List (String × Document)}

/-- What the documents of a batch bring has as many different identities as records. -/
theorem eq_of_mem_news_batch (h : docs.Pairwise (Independent r.layout))
    {stored other : StoredDataset} (hstored : stored ∈ docs.flatMap (news r withLineage c))
    (hother : other ∈ docs.flatMap (news r withLineage c)) (hsame : stored.id = other.id) :
    stored = other := by
  obtain ⟨d, hd, hstored⟩ := List.mem_flatMap.mp hstored
  obtain ⟨e, he, hother⟩ := List.mem_flatMap.mp hother
  by_cases hdocument : d = e
  · subst hdocument
    exact eq_of_mem_news hstored hother hsame
  · have hindependent := h.forall hd he hdocument
    have hmem := mem_identities_of_news hother
    rw [← hsame] at hmem
    exact (hindependent (mem_identities_of_news hstored) hmem).elim

/-- Independent documents are sorted by how each fares alone, and leave what each brings alone. -/
theorem exists_sorts_of_independent (h : docs.Pairwise (Independent r.layout))
    (hagree : ∀ d ∈ docs, Catalog.AgreesOn (r.layout.identities d.2) c c')
    (withLineage : Bool) (clock : Nat → Timestamp) (n : Nat) :
    ∃ last, Sorts r withLineage clock n c' docs
        (docs.filter fun d => verdict r withLineage c d = .added)
        (docs.filter fun d => verdict r withLineage c d = .refused)
        (docs.filter fun d => verdict r withLineage c d = .unresolved) last ∧
      last.undated = (docs.flatMap (news r withLineage c)).foldl Catalog.insert c'.undated := by
  induction h generalizing c' n with
  | nil => exact ⟨c', .done, rfl⟩
  | @cons d docs hfirst _ ih =>
      have hrest : ∀ e ∈ docs, Catalog.AgreesOn (r.layout.identities e.2) c c' := fun e he =>
        hagree e (List.mem_cons_of_mem d he)
      have hfares := fares_of_agreesOn (hagree d List.mem_cons_self) withLineage (clock n)
      have hcarried : ∀ stored ∈ news r withLineage c d, stored.id ∈ r.layout.identities d.2 :=
        fun _ => mem_identities_of_news
      simp only [List.filter_cons, List.flatMap_cons, List.foldl_append]
      generalize verdict r withLineage c d = fate at hfares ⊢
      generalize news r withLineage c d = brought at hfares hcarried ⊢
      cases hfares with
      | @added g records hresolve hadd =>
          -- The records belong to this document, so the later ones still find what they look at.
          have hnext : ∀ e ∈ docs, Catalog.AgreesOn (r.layout.identities e.2) c
              (records.foldl Catalog.insert c') := by
            intro e he
            apply (hrest e he).foldl_insert
            intro stored hstored hmem
            exact hfirst e he (hcarried _ (List.mem_map_of_mem hstored)) hmem
          obtain ⟨last, hsorts, hlast⟩ := ih hnext (n + 1)
          refine ⟨last, .added hresolve hadd hsorts, ?_⟩
          rw [hlast, Catalog.undated, Catalog.foldl_insert_retimed]
          rfl
      | refused hresolve hadd =>
          obtain ⟨last, hsorts, hlast⟩ := ih hrest (n + 1)
          exact ⟨last, .refused hresolve hadd hsorts, hlast⟩
      | unresolved hresolve =>
          obtain ⟨last, hsorts, hlast⟩ := ih hrest (n + 1)
          exact ⟨last, .unresolved hresolve hsorts, hlast⟩

/-- Independent documents are indexed in any order: each is added, refused or passed over as it
would be alone, and the catalog is the same at the end, apart from the times of indexing. -/
theorem independent_documents_commute (r : Resolver) (withLineage : Bool) (c : Catalog)
    (h : docs.Pairwise (Independent r.layout)) (hperm : docs'.Perm docs)
    (clock clock' : Nat → Timestamp) :
    let p := run r ⟨withLineage, false⟩ clock c docs
    let q := run r ⟨withLineage, false⟩ clock' c docs'
    Sorts r withLineage clock 0 c docs
        (docs.filter fun d => verdict r withLineage c d = .added)
        (docs.filter fun d => verdict r withLineage c d = .refused)
        (docs.filter fun d => verdict r withLineage c d = .unresolved) p.catalog ∧
      Sorts r withLineage clock' 0 c docs'
        (docs'.filter fun d => verdict r withLineage c d = .added)
        (docs'.filter fun d => verdict r withLineage c d = .refused)
        (docs'.filter fun d => verdict r withLineage c d = .unresolved) q.catalog ∧
      q.catalog.undated = p.catalog.undated ∧ q.report = p.report ∧
      q.unresolved = p.unresolved := by
  have hagain : docs'.Pairwise (Independent r.layout) :=
    (hperm.pairwise_iff fun {_ _} => Std.Symm.symm _ _).mpr h
  obtain ⟨last, hsorts, hlast⟩ := exists_sorts_of_independent h (fun _ _ => .refl _ c)
    withLineage clock 0
  obtain ⟨last', hsorts', hlast'⟩ := exists_sorts_of_independent hagain
    (fun _ _ => .refl _ c) withLineage clock' 0
  obtain ⟨hcatalog, hreport, hunresolved⟩ := run_of_sorts hsorts ⟨c, {}, 0, []⟩ rfl
  obtain ⟨hcatalog', hreport', hunresolved'⟩ := run_of_sorts hsorts' ⟨c, {}, 0, []⟩ rfl
  rw [← hcatalog] at hsorts
  rw [← hcatalog'] at hsorts'
  refine ⟨hsorts, hsorts', ?_, ?_, ?_⟩
  · rw [run, run, hcatalog, hcatalog', hlast, hlast']
    exact Catalog.foldl_insert_perm (hperm.flatMap_right _)
      (fun _ hd _ he => eq_of_mem_news_batch hagain hd he) c.undated
  · rw [run, run, hreport, hreport', (hperm.filter _).length_eq, (hperm.filter _).length_eq]
  · rw [run, run, hunresolved, hunresolved', (hperm.filter _).length_eq]

end Batch

section SurveyAndPeat

/-- Dataset 4 comes from dataset 5, and a third document has no identity. -/
def surveyAndPeat : List (String × Document) :=
  [("survey", Resolver.identifiedSurvey),
    ("peat", .ofFields (LineageGraph.fieldsOf '4'
      [("bog", .mapping (LineageGraph.fieldsOf '5' []))])),
    ("leaflet", .ofFields [("title", .text "leaflet")])]

/-- The two datasets are added with their ancestors and the leaflet is refused, whichever comes
first. -/
theorem surveyAndPeat_commute :
    surveyAndPeat.Pairwise (Independent Resolver.surveyResolver.layout) ∧
      surveyAndPeat.map (verdict Resolver.surveyResolver true Resolver.surveyCatalog) =
        [.added, .added, .refused] ∧
      let index := run Resolver.surveyResolver ⟨true, false⟩ default Resolver.surveyCatalog
      (index surveyAndPeat).report = ⟨2, 1⟩ ∧
        (index surveyAndPeat.reverse).report = ⟨2, 1⟩ ∧
        (index surveyAndPeat.reverse).catalog.undated = (index surveyAndPeat).catalog.undated := by
  have hidentities : surveyAndPeat.map
      (fun d => Resolver.surveyResolver.layout.identities d.2) =
        [[⟨0x11111111111111111111111111111111⟩, ⟨0x22222222222222222222222222222222⟩,
            ⟨0x33333333333333333333333333333333⟩, ⟨0x22222222222222222222222222222222⟩],
          [⟨0x44444444444444444444444444444444⟩, ⟨0x55555555555555555555555555555555⟩], []] := by
    decide +kernel
  have hindependent : surveyAndPeat.Pairwise
      (Independent Resolver.surveyResolver.layout) := by
    have hdisjoint : (surveyAndPeat.map
        fun d => Resolver.surveyResolver.layout.identities d.2).Pairwise List.Disjoint := by
      rw [hidentities]
      simp [List.Disjoint]
    rw [List.pairwise_map] at hdisjoint
    exact hdisjoint
  have hreport : (run Resolver.surveyResolver ⟨true, false⟩ default Resolver.surveyCatalog
      surveyAndPeat).report = ⟨2, 1⟩ := by
    rfl
  obtain ⟨-, -, hcatalog, hsame, -⟩ := independent_documents_commute Resolver.surveyResolver true
    Resolver.surveyCatalog hindependent (List.reverse_perm surveyAndPeat) default default
  exact ⟨hindependent, rfl, hreport, hsame.trans hreport, hcatalog⟩

end SurveyAndPeat

end DatasetCatalog.Indexing
