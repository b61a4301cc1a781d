import DatasetCatalog.Batch.Indexing
import DatasetCatalog.Batch.Updating
import DatasetCatalog.Proofs.Catalog.Curation
import DatasetCatalog.Proofs.Catalog.Frame
import Mathlib.Data.List.Pairwise

/-!
# Dry runs of updates

A dry run judges every candidate by the catalog as it is and writes nothing; a real run judges each
by the catalog that the ones before it have left, and settles locations by what was recorded when
the candidate was loaded. For candidates of different datasets this comes to the same: each is
accepted by its own changes alone, and an accepted one rewrites its own record (`write`). Such
writes go in any order.
-/

namespace DatasetCatalog

theorem Catalog.adjust_eq_self {c : Catalog} {id : Identity} {f : StoredDataset → StoredDataset}
    (hf : ∀ d, (f d).id = d.id) (h : ∀ d, f d = d) : c.adjust id f hf = c := by
  refine ext_parts rfl (OrderedMap.ext_find? fun other => ?_) rfl
  rw [datasets_adjust, OrderedMap.find?_adjust]
  split
  next => simp [funext h]
  next => rfl

/-- What a policy does with the old location of a record. -/
def LocationPolicy.displace (policy : LocationPolicy) (old : String) (d : StoredDataset) :
    StoredDataset :=
  match policy with
  | .keep => d
  | .archive => Catalog.retire old d
  | .forget => Catalog.forget old d

theorem LocationPolicy.id_displace (policy : LocationPolicy) (old : String) (d : StoredDataset) :
    (policy.displace old d).id = d.id := by
  cases policy <;> rfl

namespace UpdateCandidate

/-- The one location that was recorded, if the candidate comes from elsewhere. -/
def replaced? (u : UpdateCandidate) : Option String :=
  match u.existing.locations, u.dataset.primaryUri? with
  | [old], some new => if new = old then none else some old
  | _, _ => none

/-- What a policy does to the record of a candidate. -/
def relocate (u : UpdateCandidate) (policy : LocationPolicy) (d : StoredDataset) : StoredDataset :=
  u.replaced?.elim d fun old => policy.displace old d

/-- What an accepted candidate does to its record. -/
def rewrite (u : UpdateCandidate) (policy : LocationPolicy) (d : StoredDataset) : StoredDataset :=
  u.relocate policy (u.dataset.revise d)

variable {u : UpdateCandidate} {c c' : Catalog} {policy : LocationPolicy} {rules : ChangeRules}

theorem id_relocate (u : UpdateCandidate) (policy : LocationPolicy) (d : StoredDataset) :
    (u.relocate policy d).id = d.id := by
  rw [relocate]
  cases u.replaced? with
  | none => rfl
  | some old => exact policy.id_displace old d

theorem id_rewrite (u : UpdateCandidate) (policy : LocationPolicy) (d : StoredDataset) :
    (u.rewrite policy d).id = d.id :=
  (u.id_relocate policy _).trans (u.dataset.id_revise d)

/-- The catalog with the candidate's changes, if the rules allow them. -/
def write (u : UpdateCandidate) (rules : ChangeRules) (policy : LocationPolicy) (c : Catalog) :
    Catalog :=
  if (u.changes rules).isSafe then c.adjust u.existing.id (u.rewrite policy) (u.id_rewrite policy)
  else c

/-! ## One candidate -/

theorem load_eq_ok {layout : Layout} {d : Document} {uri : String}
    (h : load c layout d uri = .ok u) :
    u.dataset.id = some u.existing.id ∧ c.get u.existing.id = .ok u.existing ∧
      u.dataset.product = u.existing.product ∧ u.dataset.uris = [uri] := by
  rw [load] at h
  split at h
  next => cases h
  next => cases h
  next id _ =>
    split at h
    next => cases h
    next => cases h
    next existing hget =>
      have hfound : c.get id = .ok existing := bind_eq_ok.mpr ⟨some existing, hget, rfl⟩
      dsimp only at h
      split at h
      next => cases h
      next =>
        cases h
        cases Catalog.id_of_get hfound
        exact ⟨rfl, hfound, rfl, rfl⟩

/-- A candidate is judged by what it was loaded with. -/
theorem canUpdate_of_agreesOn {layout : Layout} {d : Document} {uri : String}
    (h : load c layout d uri = .ok u) (hagree : Catalog.AgreesOn [u.existing.id] c c')
    (rules : ChangeRules) : c'.canUpdate u.dataset rules = .ok (u.changes rules) := by
  obtain ⟨hid, hget, hproduct, -⟩ := load_eq_ok h
  rw [hagree.canUpdate hid (List.mem_singleton_self _), Catalog.canUpdate, hid]
  refine bind_eq_ok.mpr ⟨u.existing, hget, ?_⟩
  rw [hproduct, if_neg (not_not.mpr rfl)]
  rfl

theorem update_of_agreesOn {layout : Layout} {d : Document} {uri : String}
    (h : load c layout d uri = .ok u) (hagree : Catalog.AgreesOn [u.existing.id] c c')
    (rules : ChangeRules) : c'.update u.dataset rules =
      if (u.changes rules).isSafe then
        .ok (c'.adjust u.existing.id u.dataset.revise u.dataset.id_revise)
      else .error (.updateRefused u.dataset.label (u.changes rules).refused) := by
  obtain ⟨hid, -, -⟩ := load_eq_ok h
  rw [Catalog.update, canUpdate_of_agreesOn h hagree, hid]
  cases hsafe : (u.changes rules).isSafe with
  | true =>
      simp only [bind, Except.bind, hsafe]
      rfl
  | false =>
      simp only [bind, Except.bind, hsafe]
      rfl

theorem settle_of_contains {id : Identity} (h : c.datasets.contains id = true)
    (policy : LocationPolicy) (old : String) :
    settle c policy id old = .ok (c.adjust id (policy.displace old) (policy.id_displace old)) := by
  obtain ⟨stored, hstored⟩ := OrderedMap.contains_iff.mp h
  cases policy with
  | keep => exact congrArg Except.ok (Catalog.adjust_eq_self _ fun _ => rfl).symm
  | archive =>
      rw [settle, Catalog.archiveLocation, hstored]
      rfl
  | forget =>
      rw [settle, Catalog.removeLocation, hstored]
      rfl

/-- Settling the location of a recorded dataset does not fail, and rewrites its record. -/
theorem reconcile_of_contains (h : c.datasets.contains u.existing.id = true)
    (policy : LocationPolicy) : ∃ outcome events, u.reconcile c policy false =
      .ok (c.adjust u.existing.id (u.relocate policy) (u.id_relocate policy), outcome, events) := by
  have hnone : u.replaced? = none →
      c.adjust u.existing.id (u.relocate policy) (u.id_relocate policy) = c := fun hnone =>
    Catalog.adjust_eq_self _ fun d => by rw [relocate, hnone]; rfl
  rw [reconcile]
  split
  next hkeep =>
    subst hkeep
    have hsame : ∀ d, u.relocate .keep d = d := by
      intro d
      rw [relocate]
      cases u.replaced? <;> rfl
    exact ⟨_, _, by rw [Catalog.adjust_eq_self _ hsame]⟩
  next =>
    split
    next hempty => exact ⟨_, _, by rw [hnone (by rw [replaced?, hempty])]⟩
    next old hone =>
      split
      next hnowhere => exact ⟨_, _, by rw [hnone (by rw [replaced?, hone, hnowhere])]⟩
      next new hnew =>
        split
        next hsame => exact ⟨_, _, by rw [hnone (by simp [replaced?, hone, hnew, hsame])]⟩
        next hmoved =>
          have hsome : u.replaced? = some old := by simp [replaced?, hone, hnew, hmoved]
          have hrelocate : u.relocate policy = policy.displace old := by
            funext d
            rw [relocate, hsome]
            rfl
          rw [if_neg Bool.false_ne_true, settle_of_contains h]
          exact ⟨.applied, [], by simp only [hrelocate, Except.map]⟩
    next hseveral =>
      have hskipped : u.replaced? = none := by
        rw [replaced?]
        split
        next hone _ => exact (hseveral _ hone).elim
        next => rfl
      exact ⟨_, _, by rw [hnone hskipped]⟩

/-- A dry run settles nothing. -/
theorem reconcile_dry (u : UpdateCandidate) (c : Catalog) (policy : LocationPolicy) :
    ∃ outcome events, u.reconcile c policy true = .ok (c, outcome, events) := by
  rw [reconcile]
  split
  next => exact ⟨_, _, rfl⟩
  next =>
    split
    next => exact ⟨_, _, rfl⟩
    next =>
      split
      next => exact ⟨_, _, rfl⟩
      next =>
        split
        next => exact ⟨_, _, rfl⟩
        next => exact ⟨_, _, rfl⟩
    next => exact ⟨_, _, rfl⟩

end UpdateCandidate

namespace Updating

open UpdateCandidate

/-- The candidate was loaded from the catalog. -/
def Loaded (c : Catalog) (u : UpdateCandidate) : Prop :=
  ∃ layout d uri, load c layout d uri = .ok u

/-- A candidate counts as its own changes are allowed. -/
def count (rules : ChangeRules) (report : BatchReport) (u : UpdateCandidate) : BatchReport :=
  if (u.changes rules).isSafe then report.succeed else report.fail

variable {c : Catalog} {u : UpdateCandidate} {rules : ChangeRules} {policy : LocationPolicy}
  {p : Progress}

theorem finish_of_reconcile (o : Options) {c' : Catalog} {outcome : LocationOutcome}
    {events : List Event} (h : u.reconcile c o.policy o.dryRun = .ok (c', outcome, events))
    (p : Progress) (hp : p.catalog = c) :
    (finish o u p).catalog = c' ∧ (finish o u p).report = p.report.succeed := by
  rw [finish, hp, h]
  exact ⟨rfl, rfl⟩

/-- A dry run changes no catalog. -/
theorem catalog_apply_dry (rules : ChangeRules) (policy : LocationPolicy) (p : Progress)
    (u : UpdateCandidate) : (apply ⟨rules, policy, true⟩ p u).catalog = p.catalog := by
  rcases Catalog.catalog_apply ⟨rules, policy, true⟩ p u with hsame | ⟨_, hwet, -⟩
  · exact hsame
  · cases hwet

/-- It judges a loaded candidate by its own changes. -/
theorem report_apply_dry (h : Loaded p.catalog u) (rules : ChangeRules) (policy : LocationPolicy) :
    (apply ⟨rules, policy, true⟩ p u).report = count rules p.report u := by
  obtain ⟨layout, d, uri, hload⟩ := h
  obtain ⟨_, _, hreconcile⟩ := u.reconcile_dry p.catalog policy
  have hfinish := finish_of_reconcile ⟨rules, policy, true⟩ hreconcile
  have hjudged : ∀ events, (p.emit events).catalog.canUpdate u.dataset rules =
      .ok (u.changes rules) := fun _ => canUpdate_of_agreesOn hload (.refl _ _) rules
  simp only [apply, if_true, hjudged, count]
  split
  next => exact (hfinish ((p.emit _).emit _) rfl).2
  next => rfl

/-- So does a real run as long as the record is what was loaded, and it writes what is allowed. -/
theorem apply_wet (h : Loaded c u) (hagree : Catalog.AgreesOn [u.existing.id] c p.catalog)
    (rules : ChangeRules) (policy : LocationPolicy) :
    (apply ⟨rules, policy, false⟩ p u).catalog = u.write rules policy p.catalog ∧
      (apply ⟨rules, policy, false⟩ p u).report = count rules p.report u := by
  obtain ⟨layout, d, uri, hload⟩ := h
  obtain ⟨-, hget, -⟩ := load_eq_ok hload
  have hrecorded : p.catalog.datasets.contains u.existing.id = true := by
    rw [hagree.contains (List.mem_singleton_self _)]
    exact Catalog.contains_of_get hget
  have hupdate : ∀ events, (p.emit events).catalog.update u.dataset rules = _ := fun _ =>
    update_of_agreesOn hload hagree rules
  simp only [apply, Bool.false_eq_true, if_false, hupdate, write, count]
  cases hsafe : (u.changes rules).isSafe with
  | false => exact ⟨rfl, rfl⟩
  | true =>
      -- The update leaves the record in its place, so that its location can be settled.
      have hrevised := (Catalog.contains_adjust p.catalog u.existing.id u.existing.id
        u.dataset.id_revise).trans hrecorded
      obtain ⟨_, _, hreconcile⟩ := reconcile_of_contains hrevised policy
      rw [Catalog.adjust_adjust] at hreconcile
      exact finish_of_reconcile ⟨rules, policy, false⟩ hreconcile
        (Progress.emit ⟨_, (p.emit _).report, (p.emit _).events⟩ _) rfl

/-! ## All candidates -/

section Run

variable {us us' : List UpdateCandidate}

theorem foldl_apply_dry (p : Progress) (rules : ChangeRules) (policy : LocationPolicy)
    (h : ∀ u ∈ us, Loaded p.catalog u) :
    (us.foldl (apply ⟨rules, policy, true⟩) p).catalog = p.catalog ∧
      (us.foldl (apply ⟨rules, policy, true⟩) p).report = us.foldl (count rules) p.report := by
  induction us generalizing p with
  | nil => exact ⟨rfl, rfl⟩
  | cons u us ih =>
      have hcatalog := catalog_apply_dry rules policy p u
      have hreport := report_apply_dry (h u List.mem_cons_self) rules policy
      have hrest : ∀ v ∈ us, Loaded (apply ⟨rules, policy, true⟩ p u).catalog v := by
        intro v hv
        rw [hcatalog]
        exact h v (List.mem_cons_of_mem u hv)
      obtain ⟨hlast, hcounts⟩ := ih _ hrest
      rw [hcatalog] at hlast
      rw [hreport] at hcounts
      exact ⟨hlast, hcounts⟩

/-- What a candidate writes is not looked at by those of other datasets. -/
theorem agreesOn_write {c' : Catalog} {ids : List Identity} (h : Catalog.AgreesOn ids c c')
    (hother : u.existing.id ∉ ids) (rules : ChangeRules) (policy : LocationPolicy) :
    Catalog.AgreesOn ids c (u.write rules policy c') := by
  rw [write]
  split
  next => exact h.adjust hother (u.id_rewrite policy)
  next => exact h

theorem foldl_apply_wet (p : Progress) (rules : ChangeRules) (policy : LocationPolicy)
    (hloaded : ∀ u ∈ us, Loaded c u)
    (hdistinct : us.Pairwise fun u v => u.existing.id ≠ v.existing.id)
    (hagree : ∀ u ∈ us, Catalog.AgreesOn [u.existing.id] c p.catalog) :
    (us.foldl (apply ⟨rules, policy, false⟩) p).catalog =
        us.foldl (fun c u => u.write rules policy c) p.catalog ∧
      (us.foldl (apply ⟨rules, policy, false⟩) p).report = us.foldl (count rules) p.report := by
  induction hdistinct generalizing p with
  | nil => exact ⟨rfl, rfl⟩
  | @cons u us hfirst _ ih =>
      obtain ⟨hcatalog, hreport⟩ :=
        apply_wet (hloaded u List.mem_cons_self) (hagree u List.mem_cons_self) rules policy
      have hrest : ∀ v ∈ us, Catalog.AgreesOn [v.existing.id] c
          (apply ⟨rules, policy, false⟩ p u).catalog := by
        intro v hv
        rw [hcatalog]
        apply agreesOn_write (hagree v (List.mem_cons_of_mem u hv))
        rw [List.mem_singleton]
        exact hfirst v hv
      obtain ⟨hlast, hcounts⟩ := ih _ (fun v hv => hloaded v (List.mem_cons_of_mem u hv)) hrest
      rw [hcatalog] at hlast
      rw [hreport] at hcounts
      exact ⟨hlast, hcounts⟩

theorem write_comm {v : UpdateCandidate} (h : u.existing.id ≠ v.existing.id) (rules : ChangeRules)
    (policy : LocationPolicy) (c : Catalog) :
    v.write rules policy (u.write rules policy c) =
      u.write rules policy (v.write rules policy c) := by
  simp only [write]
  split
  next =>
    split
    next => exact c.adjust_comm h (u.id_rewrite policy) (v.id_rewrite policy)
    next => rfl
  next => rfl

theorem count_comm (rules : ChangeRules) (report : BatchReport) (u v : UpdateCandidate) :
    count rules (count rules report u) v = count rules (count rules report v) u := by
  simp only [count]
  split
  next => split <;> rfl
  next => split <;> rfl

/-- A dry run of candidates that were loaded from the catalog, no two of them for one dataset,
writes nothing and reports what the real run reports; and the order of the candidates makes no
difference to what the real run reports and leaves. -/
theorem dry_run_predicts (rules : ChangeRules) (policy : LocationPolicy)
    (hloaded : ∀ u ∈ us, Loaded c u)
    (hdistinct : us.Pairwise fun u v => u.dataset.id ≠ v.dataset.id) (hperm : us'.Perm us) :
    let dry := run ⟨rules, policy, true⟩ c us
    let real := run ⟨rules, policy, false⟩ c us
    let reordered := run ⟨rules, policy, false⟩ c us'
    dry.catalog = c ∧ dry.report = real.report ∧
      reordered.report = real.report ∧ reordered.catalog = real.catalog := by
  have hrecords : us.Pairwise fun u v => u.existing.id ≠ v.existing.id := by
    refine hdistinct.imp_of_mem fun {u v} hu hv hne hsame => hne ?_
    obtain ⟨_, _, _, hu⟩ := hloaded u hu
    obtain ⟨_, _, _, hv⟩ := hloaded v hv
    rw [(load_eq_ok hu).1, (load_eq_ok hv).1, hsame]
  have hagree : ∀ u : UpdateCandidate, Catalog.AgreesOn [u.existing.id] c c := fun _ => .refl _ c
  obtain ⟨hunchanged, hdry⟩ := foldl_apply_dry ⟨c, {}, []⟩ rules policy hloaded
  obtain ⟨hcatalog, hreport⟩ := foldl_apply_wet ⟨c, {}, []⟩ rules policy hloaded hrecords
    fun u _ => hagree u
  obtain ⟨hcatalog', hreport'⟩ := foldl_apply_wet ⟨c, {}, []⟩ rules policy
    (fun u hu => hloaded u (hperm.mem_iff.mp hu)) ((hperm.pairwise_iff Ne.symm).mpr hrecords)
    fun u _ => hagree u
  have hcounts : us'.foldl (count rules) {} = us.foldl (count rules) {} :=
    hperm.foldl_eq' (fun u _ v _ report => count_comm rules report u v) {}
  have hwrites : us'.foldl (fun c u => u.write rules policy c) c =
      us.foldl (fun c u => u.write rules policy c) c := by
    apply hperm.foldl_eq'
    intro u hu v hv c
    by_cases hsame : u = v
    · rw [hsame]
    · have hsymm : Std.Symm fun u v : UpdateCandidate => u.existing.id ≠ v.existing.id :=
        ⟨fun _ _ => Ne.symm⟩
      have hne := hrecords.forall (hperm.mem_iff.mp hu) (hperm.mem_iff.mp hv) hsame
      exact write_comm hne rules policy c
  refine ⟨hunchanged, hdry.trans hreport.symm, ?_, ?_⟩
  · exact hreport'.trans (hcounts.trans hreport.symm)
  · exact hcatalog'.trans (hwrites.trans hcatalog.symm)

end Run

section Waters

def water (digit : Char) (title kind : String) : Document :=
  .ofFields ([("title", .text title), ("kind", .text kind)] ++ LineageGraph.fieldsOf digit [])

/-- A lake and a pond. -/
def waters : Catalog :=
  (Indexing.run Resolver.surveyResolver ⟨true, false⟩ default Resolver.surveyCatalog
    [("old/lake", water '1' "lake" "lake"), ("old/pond", water '4' "pond" "pond")]).catalog

/-- The lake has another title, the pond is of another kind, and both come from elsewhere. -/
def newWaters : List UpdateCandidate :=
  [("new/lake", water '1' "tarn" "lake"), ("new/pond", water '4' "pond" "puddle")].filterMap
    fun d => (load waters LineageGraph.sourcesLayout d.2 d.1).toOption

def titleRule : ChangeRules := OrderedMap.empty.insert [.key "title"] .any

/-- Titles may change, so the lake is updated and the pond is not, as the dry run said and whichever
comes first; the old location of the lake is archived. -/
theorem waters_dry_run_predicts :
    newWaters.map (fun u => u.dataset.id) =
        [some LineageGraph.firstId, some ⟨0x44444444444444444444444444444444⟩] ∧
      let dry := run ⟨titleRule, .archive, true⟩ waters newWaters
      let real := run ⟨titleRule, .archive, false⟩ waters newWaters
      let reordered := run ⟨titleRule, .archive, false⟩ waters newWaters.reverse
      dry.report = ⟨1, 1⟩ ∧ dry.catalog = waters ∧ real.report = ⟨1, 1⟩ ∧
        real.catalog.archivedLocations LineageGraph.firstId = ["old/lake"] ∧
        reordered.report = ⟨1, 1⟩ ∧ reordered.catalog = real.catalog := by
  have hids : newWaters.map (fun u => u.dataset.id) =
      [some LineageGraph.firstId, some ⟨0x44444444444444444444444444444444⟩] := by
    rfl
  have hloaded : ∀ u ∈ newWaters, Loaded waters u := by
    intro u hu
    obtain ⟨d, -, hd⟩ := List.mem_filterMap.mp hu
    exact ⟨_, _, _, toOption_eq_some.mp hd⟩
  have hdistinct : newWaters.Pairwise fun u v => u.dataset.id ≠ v.dataset.id := by
    have hpairwise : (newWaters.map fun u => u.dataset.id).Pairwise (· ≠ ·) := by
      rw [hids]
      decide
    rw [List.pairwise_map] at hpairwise
    exact hpairwise
  obtain ⟨hcatalog, hreport, hreordered, hsame⟩ :=
    dry_run_predicts titleRule .archive hloaded hdistinct (List.reverse_perm newWaters)
  have hreal : (run ⟨titleRule, .archive, false⟩ waters newWaters).report = ⟨1, 1⟩ := by
    rfl
  exact ⟨hids, hreport.trans hreal, hcatalog, hreal, rfl, hreordered.trans hreal, hsame⟩

end Waters

end Updating

end DatasetCatalog
