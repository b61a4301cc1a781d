import DatasetCatalog.Batch.Indexing
import DatasetCatalog.Proofs.Catalog.Gates
import DatasetCatalog.Proofs.Catalog.Retiming

/-!
# A batch without the documents that failed

`Sorts` goes through a batch of documents as indexing does and sorts them into those that are added,
those whose graph is refused and those that do not resolve, each judged by the catalog that the ones
before it have left. Leaving the failures out changes nothing for the others: a failure writes
nothing. But the others are then added at other times, so the two runs agree only apart from these,
and resolving and adding must not depend on them.
-/

namespace DatasetCatalog

variable {c c' : Catalog} {ρ : Retiming}

/-! ## Times have no part in resolution -/

namespace Resolver

variable {r : Resolver} {g : LineageGraph} {known : OrderedMap Identity Entry}

theorem lookUp_retimed (c : Catalog) (ρ : Retiming) (ids : List Identity) :
    lookUp (c.retimed ρ) ids = (lookUp c ids).map (OrderedMap.mapValues (Entry.retimed ρ)) := by
  rw [lookUp, lookUp, Catalog.bulkGet_retimed]
  split
  next => rfl
  next => cases c.bulkGet ids <;> rfl

theorem missingFrom_retimed : missingFrom (known.mapValues (Entry.retimed ρ)) g =
    missingFrom known g := by
  simp only [missingFrom, OrderedMap.contains_mapValues]

theorem inconsistencies_retimed (ids : List Identity) :
    inconsistencies (known.mapValues (Entry.retimed ρ)) g ids = inconsistencies known g ids := by
  refine List.filterMap_congr fun id _ => ?_
  rw [OrderedMap.find?_mapValues]
  cases known.find? id <;> rfl

theorem classify_retimed (n : LineageNode) (a : Assembly) :
    r.classify (known.mapValues (Entry.retimed ρ)) n a = r.classify known n a := by
  have hfind : n.id.bind (known.mapValues (Entry.retimed ρ)).find? =
      (n.id.bind known.find?).map (Entry.retimed ρ) := by
    cases n.id with
    | none => rfl
    | some id => exact OrderedMap.find?_mapValues ..
  rw [classify, classify, hfind]
  cases n.id.bind known.find? <;> rfl

theorem ungated_retimed (uri : String) :
    r.ungated (known.mapValues (Entry.retimed ρ)) g uri = r.ungated known g uri := by
  rw [ungated, ungated, missingFrom_retimed, assemble_congr classify_retimed]

theorem resolveGraph_retimed (r : Resolver) (g : LineageGraph) (uri : String)
    (failOnMissing verify : Bool) :
    r.resolveGraph (c.retimed ρ) g uri failOnMissing verify =
      r.resolveGraph c g uri failOnMissing verify := by
  have hlookUp := lookUp_retimed c ρ g.byIdentity.keys
  cases hknown : lookUp c g.byIdentity.keys with
  | error e =>
      rw [hknown] at hlookUp
      rw [resolveGraph, resolveGraph, hlookUp, hknown]
      rfl
  | ok known =>
      rw [hknown] at hlookUp
      rw [resolveGraph_eq_gated hlookUp, resolveGraph_eq_gated hknown, missingFrom_retimed,
        inconsistencies_retimed, ungated_retimed]

theorem resolveChecked_retimed (r : Resolver) (c : Catalog) (ρ : Retiming) (d : Document)
    (uri : String) : r.resolveChecked (c.retimed ρ) d uri = r.resolveChecked c d uri := by
  rw [resolveChecked, resolveChecked, resolve, resolve]
  simp only [resolveGraph_retimed]

end Resolver

/-! ## Nor in adding -/

namespace Catalog

variable {g : DatasetGraph} {withLineage : Bool} {now later : Timestamp}

theorem insert_retimed (d : StoredDataset) :
    (c.insert d).retimed ρ = (c.retimed ρ).insert (d.retimed ρ) :=
  ext_parts rfl (OrderedMap.mapValues_insert ..) rfl

theorem foldl_insert_retimed (records : List StoredDataset) :
    (records.foldl insert c).retimed ρ =
      (records.map (StoredDataset.retimed ρ)).foldl insert (c.retimed ρ) := by
  induction records generalizing c with
  | nil => rfl
  | cons d records ih => rw [List.foldl_cons, ih, insert_retimed, List.map_cons, List.foldl_cons]

/-- The same is recorded at any time, apart from the time. -/
theorem pending_undated (later : Timestamp) (root : Identity) (d : Dataset) (i : Nat) :
    (c.undated.pending g withLineage later root d i).map
        (Option.map (StoredDataset.retimed .undating)) =
      (c.pending g withLineage now root d i).map
        (Option.map (StoredDataset.retimed .undating)) := by
  rw [pending, pending]
  cases d.id with
  | none => rfl
  | some id =>
      simp only [undated, contains_retimed, product?_retimed]
      split
      next => rfl
      next =>
        split
        next => rfl
        next => cases c.product? d.product.name <;> rfl

theorem undated_undated : c.undated.undated = c.undated := by
  refine ext_parts rfl (OrderedMap.ext_find? fun id => ?_) rfl
  rw [undated, undated, find?_retimed, find?_retimed, Option.map_map]
  rfl

/-- What writing the settled records leaves, apart from times, depends on the records apart from
times. -/
theorem undated_written (settled : Except CatalogError (List (Option StoredDataset))) :
    (settled >>= fun records =>
        .ok ((records.filterMap fun r => r).foldl insert c)).map undated =
      (settled.map (List.map (Option.map (StoredDataset.retimed .undating)))).map fun records =>
        (records.filterMap fun r => r).foldl insert c.undated := by
  cases settled with
  | error e => rfl
  | ok records =>
      refine congrArg Except.ok ?_
      dsimp only
      rw [undated, foldl_insert_retimed, List.map_filterMap, List.filterMap_map]
      rfl

/-- The same is added at any time, apart from the time. -/
theorem add_undated (later : Timestamp) :
    (c.undated.add g withLineage later).map undated =
      (c.add g withLineage now).map undated := by
  rw [add, add]
  cases g.rootDataset.id with
  | none => rfl
  | some root =>
      have hrecords : (g.nodes.zipIdx.mapM fun n =>
            c.undated.pending g withLineage later root n.1 n.2).map
            (List.map (Option.map (StoredDataset.retimed .undating))) =
          (g.nodes.zipIdx.mapM fun n => c.pending g withLineage now root n.1 n.2).map
            (List.map (Option.map (StoredDataset.retimed .undating))) := by
        rw [map_mapM, map_mapM]
        exact mapM_congr fun n _ => pending_undated later root n.1 n.2
      have hnew : c.undated.datasets.contains root = c.datasets.contains root := contains_retimed
      dsimp only
      rw [hnew]
      split
      next => rfl
      next =>
        refine (undated_written _).trans ?_
        rw [hrecords, undated_undated]
        exact (undated_written _).symm

theorem add_congr_undated (hsame : c'.undated = c.undated) {next : Catalog}
    (h : c.add g withLineage now = .ok next) (later : Timestamp) :
    ∃ next', c'.add g withLineage later = .ok next' ∧ next'.undated = next.undated := by
  have hadded : (c'.add g withLineage later).map undated = .ok next.undated :=
    calc (c'.add g withLineage later).map undated
      _ = (c'.undated.add g withLineage now).map undated := (add_undated now).symm
      _ = (c.undated.add g withLineage now).map undated := by rw [hsame]
      _ = (c.add g withLineage now).map undated := add_undated now
      _ = .ok next.undated := by rw [h]; rfl
  exact map_eq_ok.mp hadded

theorem resolveChecked_congr_undated (r : Resolver) (hsame : c'.undated = c.undated) (d : Document)
    (uri : String) : r.resolveChecked c' d uri = r.resolveChecked c d uri := by
  rw [← r.resolveChecked_retimed c' .undating, ← r.resolveChecked_retimed c .undating]
  exact congrArg (fun c => r.resolveChecked c d uri) hsame

end Catalog

namespace BatchReport

theorem empty_merge (a : BatchReport) : merge {} a = a := by
  simp only [merge, Nat.zero_add]

theorem succeed_merge (a b : BatchReport) : a.succeed.merge b = a.merge b.succeed := by
  simp only [succeed, merge, mk.injEq, and_true]
  omega

theorem fail_merge (a b : BatchReport) : a.fail.merge b = a.merge b.fail := by
  simp only [fail, merge, mk.injEq, true_and]
  omega

end BatchReport

namespace Indexing

variable {r : Resolver} {withLineage : Bool} {clock : Nat → Timestamp} {n : Nat}
  {docs added refused unresolved : List (String × Document)} {last : Catalog}

/-! ## Sorting a batch -/

/-- From catalog `c` and the `n`-th reading of the clock on, a batch is sorted into the documents
that are added, those whose graph is refused and those that do not resolve; `last` is what it
leaves. -/
inductive Sorts (r : Resolver) (withLineage : Bool) (clock : Nat → Timestamp) :
    (n : Nat) → (c : Catalog) → (docs added refused unresolved : List (String × Document)) →
      (last : Catalog) → Prop
  | done {n : Nat} {c : Catalog} : Sorts r withLineage clock n c [] [] [] [] c
  | added {n : Nat} {c next last : Catalog} {d : String × Document} {g : DatasetGraph}
    {docs added refused unresolved : List (String × Document)} :
    r.resolveChecked c d.2 d.1 = .ok g → c.add g withLineage (clock n) = .ok next →
    Sorts r withLineage clock (n + 1) next docs added refused unresolved last →
    Sorts r withLineage clock n c (d :: docs) (d :: added) refused unresolved last
  | refused {n : Nat} {c last : Catalog} {d : String × Document} {g : DatasetGraph}
    {e : CatalogError} {docs added refused unresolved : List (String × Document)} :
    r.resolveChecked c d.2 d.1 = .ok g → c.add g withLineage (clock n) = .error e →
    Sorts r withLineage clock (n + 1) c docs added refused unresolved last →
    Sorts r withLineage clock n c (d :: docs) added (d :: refused) unresolved last
  | unresolved {n : Nat} {c last : Catalog} {d : String × Document} {e : ResolveError}
    {docs added refused unresolved : List (String × Document)} :
    r.resolveChecked c d.2 d.1 = .error e →
    Sorts r withLineage clock (n + 1) c docs added refused unresolved last →
    Sorts r withLineage clock n c (d :: docs) added refused (d :: unresolved) last

theorem exists_sorts (r : Resolver) (withLineage : Bool) (clock : Nat → Timestamp) (n : Nat)
    (c : Catalog) (docs : List (String × Document)) : ∃ added refused unresolved last,
      Sorts r withLineage clock n c docs added refused unresolved last := by
  induction docs generalizing n c with
  | nil => exact ⟨[], [], [], c, .done⟩
  | cons d docs ih =>
      cases hresolve : r.resolveChecked c d.2 d.1 with
      | error e =>
          obtain ⟨_, _, _, _, hrest⟩ := ih (n + 1) c
          exact ⟨_, _, _, _, .unresolved hresolve hrest⟩
      | ok g =>
          cases hadd : c.add g withLineage (clock n) with
          | error e =>
              obtain ⟨_, _, _, _, hrest⟩ := ih (n + 1) c
              exact ⟨_, _, _, _, .refused hresolve hadd hrest⟩
          | ok next =>
              obtain ⟨_, _, _, _, hrest⟩ := ih (n + 1) next
              exact ⟨_, _, _, _, .added hresolve hadd hrest⟩

theorem Sorts.length_eq
    (h : Sorts r withLineage clock n c docs added refused unresolved last) :
    added.length + refused.length + unresolved.length = docs.length := by
  induction h with
  | done => rfl
  | added _ _ _ ih => simp only [List.length_cons]; omega
  | refused _ _ _ ih => simp only [List.length_cons]; omega
  | unresolved _ _ ih => simp only [List.length_cons]; omega

/-- The documents that were added are added again, and leave the same apart from times, when they
come without the others and at other times. -/
theorem Sorts.without_failures
    (h : Sorts r withLineage clock n c docs added refused unresolved last)
    (hsame : c'.undated = c.undated) (later : Nat → Timestamp) (m : Nat) :
    ∃ last', Sorts r withLineage later m c' added added [] [] last' ∧
      last'.undated = last.undated := by
  induction h generalizing c' m with
  | done => exact ⟨c', .done, hsame⟩
  | added hresolve hadd _ ih =>
      obtain ⟨next', hadd', hnext⟩ := Catalog.add_congr_undated hsame hadd (later m)
      obtain ⟨last', hrest, hlast⟩ := ih hnext (m + 1)
      rw [← Catalog.resolveChecked_congr_undated r hsame] at hresolve
      exact ⟨last', .added hresolve hadd' hrest, hlast⟩
  | refused _ _ _ ih => exact ih hsame m
  | unresolved _ _ ih => exact ih hsame m

/-! ## Indexing sorts -/

section Step

variable {p : Progress} {d : String × Document} {g : DatasetGraph} {now : Timestamp}

theorem addDocument_added {next : Catalog} (hresolve : r.resolveChecked p.catalog d.2 d.1 = .ok g)
    (hadd : p.catalog.add g withLineage now = .ok next) :
    let q := addDocument r ⟨withLineage, false⟩ now p d
    q.catalog = next ∧ q.report = p.report.succeed ∧ q.unresolved = p.unresolved := by
  simp only [addDocument, hresolve, addGraph, Bool.false_eq_true, if_false, hadd, and_self]

theorem addDocument_refused {e : CatalogError}
    (hresolve : r.resolveChecked p.catalog d.2 d.1 = .ok g)
    (hadd : p.catalog.add g withLineage now = .error e) :
    let q := addDocument r ⟨withLineage, false⟩ now p d
    q.catalog = p.catalog ∧ q.report = p.report.fail ∧ q.unresolved = p.unresolved := by
  simp only [addDocument, hresolve, addGraph, Bool.false_eq_true, if_false, hadd, and_self]

theorem addDocument_unresolved {e : ResolveError}
    (hresolve : r.resolveChecked p.catalog d.2 d.1 = .error e) :
    let q := addDocument r ⟨withLineage, false⟩ now p d
    q.catalog = p.catalog ∧ q.report = p.report ∧ q.unresolved = p.unresolved + 1 := by
  simp only [addDocument, hresolve, and_self]

end Step

theorem run_of_sorts (h : Sorts r withLineage clock n c docs added refused unresolved last)
    (p : Progress) (hp : p.catalog = c) :
    let q := (docs.zipIdx n).foldl
      (fun p d => addDocument r ⟨withLineage, false⟩ (clock d.2) p d.1) p
    q.catalog = last ∧ q.report = p.report.merge ⟨added.length, refused.length⟩ ∧
      q.unresolved = p.unresolved + unresolved.length := by
  induction h generalizing p with
  | done => exact ⟨hp, rfl, rfl⟩
  | added hresolve hadd _ ih =>
      subst hp
      obtain ⟨hcatalog, hreport, hunresolved⟩ := addDocument_added hresolve hadd
      obtain ⟨hlast, hcounts, hcount⟩ := ih _ hcatalog
      rw [hreport, BatchReport.succeed_merge] at hcounts
      rw [hunresolved] at hcount
      exact ⟨hlast, hcounts, hcount⟩
  | refused hresolve hadd _ ih =>
      subst hp
      obtain ⟨hcatalog, hreport, hunresolved⟩ := addDocument_refused hresolve hadd
      obtain ⟨hlast, hcounts, hcount⟩ := ih _ hcatalog
      rw [hreport, BatchReport.fail_merge] at hcounts
      rw [hunresolved] at hcount
      exact ⟨hlast, hcounts, hcount⟩
  | unresolved hresolve _ ih =>
      subst hp
      obtain ⟨hcatalog, hreport, hunresolved⟩ := addDocument_unresolved hresolve
      obtain ⟨hlast, hcounts, hcount⟩ := ih _ hcatalog
      rw [hreport] at hcounts
      rw [hunresolved, Nat.add_right_comm] at hcount
      exact ⟨hlast, hcounts, hcount⟩

/-! ## Two stages -/

/-- Pulls numbered documents until one resolves. Its graph is given with its number and the
documents that are left; those that did not resolve are counted in any case. -/
def pull (r : Resolver) (c : Catalog) : List ((String × Document) × Nat) → (failed : Nat) →
    Option ((DatasetGraph × Nat) × List ((String × Document) × Nat)) × Nat
  | [], failed => (none, failed)
  | d :: docs, failed =>
    match r.resolveChecked c d.1.2 d.1.1 with
    | .ok g => (some ((g, d.2), docs), failed)
    | .error _ => pull r c docs (failed + 1)

/-- Graphs are pulled one after the other, each from the catalog as it is then, and added before the
next one is pulled. -/
inductive Drains (r : Resolver) (withLineage : Bool) (clock : Nat → Timestamp) :
    (c : Catalog) → (docs : List ((String × Document) × Nat)) → (failed : Nat) →
      (report : BatchReport) → (outcome : Catalog × BatchReport × Nat) → Prop
  | exhausted {c : Catalog} {docs : List ((String × Document) × Nat)} {failed total : Nat}
    {report : BatchReport} :
    pull r c docs failed = (none, total) →
    Drains r withLineage clock c docs failed report (c, report, total)
  | added {c c' : Catalog} {docs rest : List ((String × Document) × Nat)} {failed total i : Nat}
    {report : BatchReport} {g : DatasetGraph} {outcome : Catalog × BatchReport × Nat} :
    pull r c docs failed = (some ((g, i), rest), total) →
    c.add g withLineage (clock i) = .ok c' →
    Drains r withLineage clock c' rest total report.succeed outcome →
    Drains r withLineage clock c docs failed report outcome
  | refused {c : Catalog} {docs rest : List ((String × Document) × Nat)} {failed total i : Nat}
    {report : BatchReport} {g : DatasetGraph} {e : CatalogError}
    {outcome : Catalog × BatchReport × Nat} :
    pull r c docs failed = (some ((g, i), rest), total) →
    c.add g withLineage (clock i) = .error e →
    Drains r withLineage clock c rest total report.fail outcome →
    Drains r withLineage clock c docs failed report outcome

theorem pull_of_unresolved {d : (String × Document) × Nat} {e : ResolveError}
    (h : r.resolveChecked c d.1.2 d.1.1 = .error e)
    (docs : List ((String × Document) × Nat)) (failed : Nat) :
    pull r c (d :: docs) failed = pull r c docs (failed + 1) := by
  rw [pull, h]

theorem pull_of_resolved {d : (String × Document) × Nat} {g : DatasetGraph}
    (h : r.resolveChecked c d.1.2 d.1.1 = .ok g)
    (docs : List ((String × Document) × Nat)) (failed : Nat) :
    pull r c (d :: docs) failed = (some ((g, d.2), docs), failed) := by
  rw [pull, h]

/-- A document that does not resolve is passed over when the next graph is pulled. -/
theorem Drains.pass {d : (String × Document) × Nat} {docs : List ((String × Document) × Nat)}
    {e : ResolveError} {failed : Nat} {report : BatchReport} {outcome : Catalog × BatchReport × Nat}
    (hresolve : r.resolveChecked c d.1.2 d.1.1 = .error e)
    (h : Drains r withLineage clock c docs (failed + 1) report outcome) :
    Drains r withLineage clock c (d :: docs) failed report outcome := by
  have hnext := pull_of_unresolved hresolve docs failed
  cases h with
  | exhausted hnone => exact .exhausted (hnext.trans hnone)
  | added hsome hadd hrest => exact .added (hnext.trans hsome) hadd hrest
  | refused hsome hadd hrest => exact .refused (hnext.trans hsome) hadd hrest

theorem drains_of_sorts (h : Sorts r withLineage clock n c docs added refused unresolved last)
    (failed : Nat) (report : BatchReport) :
    Drains r withLineage clock c (docs.zipIdx n) failed report
      (last, report.merge ⟨added.length, refused.length⟩, failed + unresolved.length) := by
  induction h generalizing failed report with
  | done => exact .exhausted rfl
  | added hresolve hadd _ ih =>
      have hrest := ih failed report.succeed
      rw [BatchReport.succeed_merge] at hrest
      exact .added (pull_of_resolved hresolve _ failed) hadd hrest
  | refused hresolve hadd _ ih =>
      have hrest := ih failed report.fail
      rw [BatchReport.fail_merge] at hrest
      exact .refused (pull_of_resolved hresolve _ failed) hadd hrest
  | unresolved hresolve _ ih =>
      have hrest := ih (failed + 1) report
      rw [Nat.add_right_comm] at hrest
      exact .pass hresolve hrest

/-- Indexing a batch goes through its documents one by one, each judged by the catalog that the ones
before it have left, and accounts for every document once. The same happens when graphs are pulled
from a loader. Without the documents that failed, the others are added all the same, at whatever
times, and leave the same catalog apart from these. -/
theorem failures_isolated (r : Resolver) (withLineage : Bool) (clock : Nat → Timestamp)
    (c : Catalog) (docs : List (String × Document)) :
    ∃ added refused unresolved last,
      Sorts r withLineage clock 0 c docs added refused unresolved last ∧
      Drains r withLineage clock c docs.zipIdx 0 {}
        (last, ⟨added.length, refused.length⟩, unresolved.length) ∧
      let p := run r ⟨withLineage, false⟩ clock c docs
      p.catalog = last ∧ p.report = ⟨added.length, refused.length⟩ ∧
        p.unresolved = unresolved.length ∧
        p.report.succeeded + p.report.failed + p.unresolved = docs.length ∧
        ∀ later,
          let q := run r ⟨withLineage, false⟩ later c added
          q.report = ⟨p.report.succeeded, 0⟩ ∧ q.unresolved = 0 ∧
            q.catalog.undated = p.catalog.undated := by
  obtain ⟨added, refused, unresolved, last, hsorts⟩ := exists_sorts r withLineage clock 0 c docs
  have hdrains := drains_of_sorts hsorts 0 {}
  obtain ⟨hcatalog, hreport, hunresolved⟩ := run_of_sorts hsorts ⟨c, {}, 0, []⟩ rfl
  rw [BatchReport.empty_merge] at hreport
  rw [BatchReport.empty_merge, Nat.zero_add] at hdrains
  rw [Nat.zero_add] at hunresolved
  refine ⟨added, refused, unresolved, last, hsorts, hdrains, hcatalog, hreport, hunresolved, ?_, ?_⟩
  · have hcount := hsorts.length_eq
    rw [run, hreport, hunresolved]
    exact hcount
  · intro later
    obtain ⟨last', hagain, hlast⟩ := hsorts.without_failures rfl later 0
    obtain ⟨hcatalog', hreport', hunresolved'⟩ := run_of_sorts hagain ⟨c, {}, 0, []⟩ rfl
    rw [BatchReport.empty_merge] at hreport'
    refine ⟨?_, hunresolved', ?_⟩
    · rw [run, run, hreport, hreport']
      rfl
    · rw [run, run, hcatalog, hcatalog', hlast]

/-- A document whose ancestor has to be recorded resolves only after that ancestor was added. -/
example :
    let start : Catalog := { Catalog.empty with products := [Resolver.soilProduct] }
    let index := run Resolver.soilResolver ⟨false, false⟩ default start
    let soil := ("soil", Resolver.ancestor)
    let moss := ("moss", Resolver.mossDocument)
    (index [soil, moss]).report = ⟨2, 0⟩ ∧ (index [moss, soil]).report = ⟨1, 0⟩ ∧
      (index [moss, soil]).unresolved = 1 :=
  ⟨rfl, rfl, rfl⟩

end Indexing

end DatasetCatalog
