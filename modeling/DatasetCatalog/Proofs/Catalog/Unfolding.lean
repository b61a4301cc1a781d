import DatasetCatalog.Catalog.Info
import DatasetCatalog.Proofs.Batch.Derivation

/-!
# What a record for display shows

The lineage graph may have cycles and may name sources that are not recorded; only the number of
levels ends a description. `Describes` is what carries over from a record to those directly below
it: each is the description of its own entry with one level less, and only the direction in which it
lies is followed further. So every record within a description is what the outermost record of some
description is, and the directions on the way to it tell which (`Describes.within`).
-/

namespace DatasetCatalog

namespace DatasetInfo

/-- Upwards to the sources, or downwards to what is derived. -/
inductive Direction
  | sources
  | derived
deriving DecidableEq

/-- A recorded step of lineage leads from one entry to the other. -/
def Direction.Leads (c : Catalog) (e x : Entry) : Direction → Prop
  | .sources => ∃ id ∈ e.sources.values, c.get? id = .ok (some x)
  | .derived => ∃ es, c.getDerived e.id = .ok es ∧ x ∈ es

/-- A chain of that many recorded steps, all in one direction. -/
inductive Direction.Reaches (c : Catalog) (d : Direction) : Nat → Entry → Entry → Prop
  | refl {e : Entry} : Reaches c d 0 e e
  | step {n : Nat} {e x y : Entry} : d.Leads c e x → Reaches c d n x y → Reaches c d (n + 1) e y

def entry : DatasetInfo → Entry
  | record e _ _ => e

def sources : DatasetInfo → Option (List (String × DatasetInfo))
  | record _ sources _ => sources

def derived : DatasetInfo → Option (List DatasetInfo)
  | record _ _ derived => derived

/-- The records directly below in a direction, if it is followed. -/
def shown (info : DatasetInfo) : Direction → Option (List DatasetInfo)
  | .sources => info.sources.map (List.map Prod.snd)
  | .derived => info.derived

/-- The last record lies within the first one, at the end of these steps downwards in the tree. -/
inductive Within : DatasetInfo → List Direction → DatasetInfo → Prop
  | here {info : DatasetInfo} : Within info [] info
  | under {info next inner : DatasetInfo} {d : Direction} {path : List Direction}
      {infos : List DatasetInfo} :
    info.shown d = some infos → next ∈ infos → Within next path inner →
      Within info (d :: path) inner

/-- Whether a direction is to be followed from the outermost record. -/
def Options.shows (o : Options) : Direction → Bool
  | .sources => o.showSources
  | .derived => o.showDerived

/-- What remains to be followed after these steps: a direction in which all of them went. -/
def after (follow : Direction → Bool) (path : List Direction) (d : Direction) : Bool :=
  follow d && path.all (· == d)

/-- What a description tells of the sources of an entry. -/
def upward (c : Catalog) (levels : Nat) (e : Entry) (follow : Bool) :
    Except CatalogError (Option (List (String × DatasetInfo)) × List Event) :=
  if follow then
    (ofSources c (unfold c levels true false) e.sources.entries).map fun p => (some p.1, p.2)
  else .ok (none, [])

/-- What a description tells of what is derived from an entry. -/
def downward (c : Catalog) (levels : Nat) (e : Entry) (follow : Bool) :
    Except CatalogError (Option (List DatasetInfo) × List Event) :=
  if follow then do
    let found ← c.getDerived e.id
    (ofEntries (unfold c levels false true) found).map fun p => (some p.1, p.2)
  else .ok (none, [])

/-- The record is what describing its entry gives, with so many more levels. -/
def Describes (c : Catalog) (levels : Nat) (follow : Direction → Bool) (info : DatasetInfo) :
    Prop :=
  ∃ events, unfold c levels (follow .sources) (follow .derived) info.entry = .ok (info, events)

/-- Every recorded source has a record, by classifier, that holds it as recorded. -/
structure ShowsSources (c : Catalog) (e : Entry) (above : List (String × DatasetInfo)) : Prop where
  classified : (above.map fun s => (s.1, s.2.entry.id)) =
    e.sources.entries.filter fun s => c.datasets.contains s.2
  recorded : ∀ s ∈ above, c.get s.2.entry.id = .ok s.2.entry

variable {c : Catalog} {levels n : Nat} {follow : Direction → Bool} {d : Direction}
  {path : List Direction} {info inner : DatasetInfo} {infos : List DatasetInfo} {e x : Entry}
  {describe : Entry → Except CatalogError (DatasetInfo × List Event)} {events : List Event}

/-! ## One level -/

theorem ofSources_eq_ok {sources : List (String × Identity)} {above : List (String × DatasetInfo)}
    (h : ofSources c describe sources = .ok (above, events)) :
    List.Forall₂ (fun s r => r.1 = s.1 ∧ ∃ x, c.get? s.2 = .ok (some x) ∧
        ∃ events, describe x = .ok (r.2, events))
      (sources.filter fun s => c.datasets.contains s.2) above := by
  induction sources generalizing above events with
  | nil =>
      cases h
      exact .nil
  | cons s rest ih =>
      obtain ⟨found, hfound, h⟩ := bind_eq_ok.mp h
      have hcontains := Catalog.isSome_of_get? hfound
      cases found with
      | none =>
          obtain ⟨⟨infos, _⟩, hrest, ⟨⟩⟩ := bind_eq_ok.mp h
          rw [List.filter_cons_of_neg (by rw [← hcontains]; exact Bool.false_ne_true)]
          exact ih hrest
      | some x =>
          obtain ⟨⟨info, _⟩, hinfo, h⟩ := bind_eq_ok.mp h
          obtain ⟨⟨infos, _⟩, hrest, ⟨⟩⟩ := bind_eq_ok.mp h
          rw [List.filter_cons_of_pos (by rw [← hcontains]; rfl)]
          exact .cons ⟨rfl, x, hfound, _, hinfo⟩ (ih hrest)

theorem ofEntries_eq_ok {es : List Entry} (h : ofEntries describe es = .ok (infos, events)) :
    List.Forall₂ (fun x r => ∃ events, describe x = .ok (r, events)) es infos := by
  induction es generalizing infos events with
  | nil =>
      cases h
      exact .nil
  | cons x rest ih =>
      obtain ⟨⟨info, _⟩, hinfo, h⟩ := bind_eq_ok.mp h
      obtain ⟨⟨infos, _⟩, hrest, ⟨⟩⟩ := bind_eq_ok.mp h
      exact .cons ⟨_, hinfo⟩ (ih hrest)

theorem exists_ofSources (hread : c.Readable) (h : ∀ x, ∃ out, describe x = .ok out)
    (sources : List (String × Identity)) : ∃ out, ofSources c describe sources = .ok out := by
  induction sources with
  | nil => exact ⟨_, rfl⟩
  | cons s rest ih =>
      obtain ⟨found, hfound⟩ := hread s.2
      obtain ⟨⟨infos, events⟩, hrest⟩ := ih
      cases found with
      | none =>
          refine ⟨(infos, unindexedEvent s.2 s.1 :: events), ?_⟩
          exact bind_eq_ok.mpr ⟨none, hfound, bind_eq_ok.mpr ⟨_, hrest, rfl⟩⟩
      | some x =>
          obtain ⟨⟨info, above⟩, hinfo⟩ := h x
          refine ⟨((s.1, info) :: infos, above ++ events), bind_eq_ok.mpr ⟨some x, hfound, ?_⟩⟩
          exact bind_eq_ok.mpr ⟨_, hinfo, bind_eq_ok.mpr ⟨_, hrest, rfl⟩⟩

theorem exists_ofEntries (h : ∀ x, ∃ out, describe x = .ok out) (es : List Entry) :
    ∃ out, ofEntries describe es = .ok out := by
  induction es with
  | nil => exact ⟨_, rfl⟩
  | cons x rest ih =>
      obtain ⟨⟨info, below⟩, hinfo⟩ := h x
      obtain ⟨⟨infos, events⟩, hrest⟩ := ih
      refine ⟨(info :: infos, below ++ events), ?_⟩
      exact bind_eq_ok.mpr ⟨_, hinfo, bind_eq_ok.mpr ⟨_, hrest, rfl⟩⟩

theorem unfold_succ (c : Catalog) (levels : Nat) (up down : Bool) (e : Entry) :
    unfold c (levels + 1) up down e = (do
      let sources ← upward c levels e up
      let derived ← downward c levels e down
      .ok (.record e sources.1 derived.1, sources.2 ++ derived.2)) := by
  cases down with
  | false => cases up <;> rfl
  | true =>
      simp only [downward, if_true, bind_assoc]
      cases up <;> rfl

/-- As long as look-ups do not fail, no description does: cycles only run out of levels. -/
theorem exists_unfold (hread : c.Readable) (levels : Nat) (up down : Bool) (e : Entry) :
    ∃ out, unfold c levels up down e = .ok out := by
  induction levels generalizing up down e with
  | zero => exact ⟨_, rfl⟩
  | succ levels ih =>
      have hup : ∃ out, upward c levels e up = .ok out := by
        cases up with
        | false => exact ⟨_, rfl⟩
        | true =>
            obtain ⟨out, hout⟩ := exists_ofSources hread (ih true false) e.sources.entries
            exact ⟨_, map_eq_ok.mpr ⟨out, hout, rfl⟩⟩
      have hdown : ∃ out, downward c levels e down = .ok out := by
        cases down with
        | false => exact ⟨_, rfl⟩
        | true =>
            obtain ⟨es, hes, -⟩ := hread.getDerived e.id
            obtain ⟨out, hout⟩ := exists_ofEntries (ih false true) es
            exact ⟨_, bind_eq_ok.mpr ⟨es, hes, map_eq_ok.mpr ⟨out, hout, rfl⟩⟩⟩
      obtain ⟨_, hup⟩ := hup
      obtain ⟨_, hdown⟩ := hdown
      exact ⟨_, (unfold_succ ..).trans (bind_eq_ok.mpr ⟨_, hup, bind_eq_ok.mpr ⟨_, hdown, rfl⟩⟩)⟩

/-- A description with a level more is the two that are made of the two directions. -/
theorem unfold_succ_eq_ok {up down : Bool}
    (h : unfold c (levels + 1) up down e = .ok (info, events)) :
    ∃ sources derived above below, info = .record e sources derived ∧
      upward c levels e up = .ok (sources, above) ∧
      downward c levels e down = .ok (derived, below) := by
  rw [unfold_succ] at h
  obtain ⟨⟨sources, above⟩, hup, h⟩ := bind_eq_ok.mp h
  obtain ⟨⟨derived, below⟩, hdown, ⟨⟩⟩ := bind_eq_ok.mp h
  exact ⟨sources, derived, above, below, rfl, hup, hdown⟩

theorem entry_of_unfold {up down : Bool} (h : unfold c levels up down e = .ok (info, events)) :
    info.entry = e := by
  cases levels with
  | zero =>
      cases h
      rfl
  | succ levels =>
      obtain ⟨_, _, _, _, rfl, -, -⟩ := unfold_succ_eq_ok h
      rfl

theorem upward_eq_ok {up : Bool} {sources : Option (List (String × DatasetInfo))}
    (h : upward c levels e up = .ok (sources, events)) :
    sources.isSome = up ∧ ∀ above, sources = some above → ∃ events,
      ofSources c (unfold c levels true false) e.sources.entries = .ok (above, events) := by
  cases up with
  | false =>
      cases h
      exact ⟨rfl, fun _ h => nomatch h⟩
  | true =>
      obtain ⟨⟨above, events⟩, habove, ⟨⟩⟩ := map_eq_ok.mp h
      refine ⟨rfl, ?_⟩
      rintro _ ⟨⟩
      exact ⟨events, habove⟩

theorem downward_eq_ok {down : Bool} {derived : Option (List DatasetInfo)}
    (h : downward c levels e down = .ok (derived, events)) :
    derived.isSome = down ∧ ∀ below, derived = some below → ∃ es events,
      c.getDerived e.id = .ok es ∧
        ofEntries (unfold c levels false true) es = .ok (below, events) := by
  cases down with
  | false =>
      cases h
      exact ⟨rfl, fun _ h => nomatch h⟩
  | true =>
      obtain ⟨es, hes, h⟩ := bind_eq_ok.mp h
      obtain ⟨⟨below, events⟩, hbelow, ⟨⟩⟩ := map_eq_ok.mp h
      refine ⟨rfl, ?_⟩
      rintro _ ⟨⟩
      exact ⟨es, events, hes, hbelow⟩

/-! ## One record -/

/-- Without levels, or in a direction that is not followed, nothing is shown; otherwise something
is, if only an empty list. -/
theorem Describes.isSome_shown (h : Describes c levels follow info) (d : Direction) :
    (info.shown d).isSome = true ↔ follow d = true ∧ 0 < levels := by
  obtain ⟨_, h⟩ := h
  cases levels with
  | zero =>
      have hnone : info = .record info.entry none none := (Prod.ext_iff.mp (Except.ok.inj h)).1.symm
      rw [hnone]
      cases d <;> simp [shown, sources, derived]
  | succ levels =>
      obtain ⟨sources, derived, _, _, hinfo, hup, hdown⟩ := unfold_succ_eq_ok h
      rw [hinfo]
      cases d with
      | sources =>
          rw [shown, DatasetInfo.sources, Option.isSome_map, (upward_eq_ok hup).1]
          exact (and_iff_left levels.succ_pos).symm
      | derived =>
          rw [shown, DatasetInfo.derived, (downward_eq_ok hdown).1]
          exact (and_iff_left levels.succ_pos).symm

/-- The records of the sources: one for each that is recorded, described with a level less. -/
theorem Describes.of_sources (h : Describes c (levels + 1) follow info)
    {above : List (String × DatasetInfo)} (habove : info.sources = some above) :
    List.Forall₂ (fun s r => r.1 = s.1 ∧ c.get? s.2 = .ok (some r.2.entry) ∧
        Describes c levels (· == .sources) r.2)
      (info.entry.sources.entries.filter fun s => c.datasets.contains s.2) above := by
  obtain ⟨_, h⟩ := h
  obtain ⟨sources, derived, _, _, hinfo, hup, -⟩ := unfold_succ_eq_ok h
  rw [hinfo] at habove
  obtain ⟨_, hsources⟩ := (upward_eq_ok hup).2 above habove
  refine (ofSources_eq_ok hsources).imp ?_
  rintro s r ⟨hclassifier, x, hx, events, hr⟩
  have hentry := entry_of_unfold hr
  exact ⟨hclassifier, hentry ▸ hx, events, hentry ▸ hr⟩

/-- The records of what is derived: one for each entry, described with a level less. -/
theorem Describes.of_derived (h : Describes c (levels + 1) follow info)
    (hinfos : info.derived = some infos) :
    c.getDerived info.entry.id = .ok (infos.map entry) ∧
      ∀ r ∈ infos, Describes c levels (· == .derived) r := by
  obtain ⟨_, h⟩ := h
  obtain ⟨sources, derived, _, _, hinfo, -, hdown⟩ := unfold_succ_eq_ok h
  rw [hinfo] at hinfos
  obtain ⟨es, _, hes, hbelow⟩ := (downward_eq_ok hdown).2 infos hinfos
  have hrecords := ofEntries_eq_ok hbelow
  constructor
  · have hmap : infos.map entry = es.map id :=
      map_eq_map_of_forall₂ hrecords fun _ _ ⟨_, hr⟩ => entry_of_unfold hr
    rw [hes, hmap, List.map_id]
  · intro r hr
    obtain ⟨x, -, events, hx⟩ := exists_of_mem_right hrecords hr
    exact ⟨events, (entry_of_unfold hx).symm ▸ hx⟩

/-- What is shown in a direction is where the recorded steps in it lead. -/
theorem Describes.leads_iff (h : Describes c (levels + 1) follow info)
    (hinfos : info.shown d = some infos) :
    d.Leads c info.entry x ↔ ∃ r ∈ infos, r.entry = x := by
  cases d with
  | sources =>
      obtain ⟨above, habove, rfl⟩ := Option.map_eq_some_iff.mp hinfos
      have hrecords := h.of_sources habove
      constructor
      · rintro ⟨id, hid, hx⟩
        obtain ⟨s, hs, rfl⟩ := List.mem_map.mp hid
        have hcontains : c.datasets.contains s.2 = true := (Catalog.isSome_of_get? hx).symm
        obtain ⟨r, hr, -, hentry, -⟩ :=
          exists_of_mem_left hrecords (List.mem_filter.mpr ⟨hs, hcontains⟩)
        cases hx.symm.trans hentry
        exact ⟨r.2, List.mem_map_of_mem hr, rfl⟩
      · rintro ⟨_, hr, rfl⟩
        obtain ⟨r, habove, rfl⟩ := List.mem_map.mp hr
        obtain ⟨s, hs, -, hentry, -⟩ := exists_of_mem_right hrecords habove
        exact ⟨s.2, List.mem_map_of_mem (List.mem_of_mem_filter hs), hentry⟩
  | derived =>
      obtain ⟨hderived, -⟩ := h.of_derived hinfos
      constructor
      · rintro ⟨es, hes, hx⟩
        cases hderived.symm.trans hes
        exact List.mem_map.mp hx
      · intro hx
        exact ⟨_, hderived, List.mem_map.mpr hx⟩

/-- A record directly below is the description of its entry with a level less, and is followed
further in its own direction. -/
theorem Describes.under (h : Describes c levels follow info) (hinfos : info.shown d = some infos) :
    ∃ fewer, levels = fewer + 1 ∧ follow d = true ∧ ∀ r ∈ infos, Describes c fewer (· == d) r := by
  obtain ⟨hfollow, hlevels⟩ := (h.isSome_shown d).mp (by rw [hinfos]; rfl)
  obtain ⟨fewer, rfl⟩ := Nat.exists_eq_add_of_lt hlevels
  rw [Nat.zero_add] at h
  refine ⟨fewer, Nat.zero_add _ ▸ rfl, hfollow, fun r hr => ?_⟩
  cases d with
  | sources =>
      obtain ⟨above, habove, rfl⟩ := Option.map_eq_some_iff.mp hinfos
      obtain ⟨s, hs, rfl⟩ := List.mem_map.mp hr
      obtain ⟨_, -, -, -, hdescribes⟩ := exists_of_mem_right (h.of_sources habove) hs
      exact hdescribes
  | derived => exact (h.of_derived hinfos).2 r hr

/-! ## A whole description -/

/-- A record within a description is what describing its entry gives, with a level less for every
step on the way to it. -/
theorem Describes.within (h : Describes c levels follow info) (hinner : info.Within path inner) :
    ∃ fewer, levels = fewer + path.length ∧ Describes c fewer (after follow path) inner := by
  induction hinner generalizing levels follow with
  | here =>
      refine ⟨levels, rfl, ?_⟩
      have hall : after follow [] = follow := funext fun d => Bool.and_true _
      rw [hall]
      exact h
  | @under info next inner d path infos hinfos hnext _ ih =>
      obtain ⟨fewer, rfl, hfollow, hdescribes⟩ := h.under hinfos
      obtain ⟨least, rfl, hinner⟩ := ih (hdescribes next hnext)
      refine ⟨least, by rw [List.length_cons]; omega, ?_⟩
      have hafter : after (· == d) path = after follow (d :: path) := by
        funext d'
        rw [after, after, List.all_cons]
        by_cases hd : d' = d
        · subst hd
          rw [hfollow, beq_self_eq_true, Bool.true_and, Bool.true_and]
        · rw [beq_eq_false_iff_ne.mpr hd, beq_eq_false_iff_ne.mpr (Ne.symm hd)]
          rw [Bool.false_and, Bool.and_false]
      exact hafter ▸ hinner

/-- Nothing but directions that are followed leads to a record. -/
theorem Describes.follows (h : Describes c levels follow info) (hinner : info.Within path inner) :
    ∀ d ∈ path, follow d = true := by
  induction hinner generalizing levels follow with
  | here => exact fun d hd => (nomatch hd)
  | @under info next inner d path infos hinfos hnext _ ih =>
      obtain ⟨fewer, -, hfollow, hdescribes⟩ := h.under hinfos
      intro d' hd'
      rcases List.mem_cons.mp hd' with rfl | hd'
      · exact hfollow
      · rw [beq_iff_eq.mp (ih (hdescribes next hnext) d' hd')]
        exact hfollow

/-- Once a step is taken in a direction, the others are taken in it too. -/
theorem Describes.straight (h : Describes c levels follow info)
    (hinner : info.Within (d :: path) inner) : follow d = true ∧ ∀ step ∈ path, step = d := by
  cases hinner with
  | under hinfos hnext hrest =>
      obtain ⟨_, -, hfollow, hdescribes⟩ := h.under hinfos
      have hsteps := (hdescribes _ hnext).follows hrest
      exact ⟨hfollow, fun step hstep => beq_iff_eq.mp (hsteps step hstep)⟩

/-- The way to a record is a chain of recorded steps. -/
theorem Describes.reaches (h : Describes c levels follow info) (hinner : info.Within path inner)
    (hpath : ∀ step ∈ path, step = d) : d.Reaches c path.length info.entry inner.entry := by
  induction hinner generalizing levels follow with
  | here => exact .refl
  | @under info next inner first path infos hinfos hnext _ ih =>
      obtain rfl : first = d := hpath first List.mem_cons_self
      obtain ⟨fewer, rfl, -, hdescribes⟩ := h.under hinfos
      refine .step ((h.leads_iff hinfos).mpr ⟨next, hnext, rfl⟩) ?_
      exact ih (hdescribes next hnext) fun step hstep => hpath step (List.mem_cons_of_mem _ hstep)

/-- As far as the levels go, every chain of recorded steps ends at a record. -/
theorem Describes.exists_within (hreaches : d.Reaches c n e x)
    (h : Describes c levels follow info) (he : info.entry = e) (hfollow : follow d = true)
    (hn : n ≤ levels) : ∃ inner, info.Within (List.replicate n d) inner ∧ inner.entry = x := by
  induction hreaches generalizing levels follow info with
  | refl => exact ⟨info, .here, he⟩
  | @step n e x y hleads _ ih =>
      have hsome := (h.isSome_shown d).mpr ⟨hfollow, Nat.zero_lt_of_lt hn⟩
      obtain ⟨infos, hinfos⟩ := Option.isSome_iff_exists.mp hsome
      obtain ⟨fewer, rfl, -, hdescribes⟩ := h.under hinfos
      obtain ⟨next, hnext, hentry⟩ := (h.leads_iff hinfos).mp (he ▸ hleads)
      obtain ⟨inner, hwithin, hinner⟩ :=
        ih (hdescribes next hnext) hentry (beq_self_eq_true d) (Nat.le_of_succ_le_succ hn)
      exact ⟨inner, .under hinfos hnext hwithin, hinner⟩

/-- A record within a description shows something in a direction if that alone leads to it and
levels are left. -/
theorem Describes.isSome_within (h : Describes c levels follow info)
    (hinner : info.Within path inner) (d : Direction) :
    (inner.shown d).isSome = true ↔
      (follow d = true ∧ ∀ step ∈ path, step = d) ∧ path.length < levels := by
  obtain ⟨fewer, rfl, hdescribes⟩ := h.within hinner
  rw [hdescribes.isSome_shown d, after, Bool.and_eq_true, List.all_eq_true]
  simp only [beq_iff_eq]
  exact and_congr_right fun _ => by omega

/-- Below a step in one direction nothing is shown in the other. -/
theorem Describes.shown_eq_none (h : Describes c levels follow info)
    (hinner : info.Within path inner) (hd : d ∈ path) (other : Direction) (hne : d ≠ other) :
    inner.shown other = none :=
  Option.not_isSome_iff_eq_none.mp fun hsome =>
    hne (((h.isSome_within hinner other).mp hsome).1.2 d hd)

theorem Describes.showsSources (h : Describes c levels follow info)
    {above : List (String × DatasetInfo)} (habove : info.sources = some above) :
    ShowsSources c info.entry above := by
  obtain ⟨fewer, rfl, -, -⟩ := h.under (d := .sources) (by rw [shown, habove]; rfl)
  have hrecords := h.of_sources habove
  have hget : ∀ {id e}, c.get? id = .ok (some e) → c.get id = .ok e :=
    fun hfound => bind_eq_ok.mpr ⟨_, hfound, rfl⟩
  constructor
  · refine (map_eq_map_of_forall₂ hrecords ?_).trans (List.map_id _)
    rintro s r ⟨hclassifier, hentry, -⟩
    exact Prod.ext hclassifier (Catalog.id_of_get (hget hentry))
  · intro r hr
    obtain ⟨s, -, -, hentry, -⟩ := exists_of_mem_right hrecords hr
    rw [Catalog.id_of_get (hget hentry)]
    exact hget hentry

theorem Describes.getDerived (h : Describes c levels follow info)
    (hinfos : info.derived = some infos) :
    c.getDerived info.entry.id = .ok (infos.map entry) := by
  obtain ⟨fewer, rfl, -, -⟩ := h.under (d := .derived) hinfos
  exact (h.of_derived hinfos).1

/-- As long as look-ups do not fail an entry is described, whatever cycles and missing sources its
lineage has. A record shows its sources, or what is derived from it, exactly if that direction was
asked for, no step on the way to the record went in the other one, and the record is not on the last
level. It then has a record for every source that is recorded, by classifier, or for every derived
entry, in order. So what is shown in a direction are the ends of the chains of recorded steps in it
that are shorter than the number of levels. -/
theorem ofEntry_unfolds_lineage (hread : c.Readable) (o : Options) (e : Entry) :
    ∃ info events, ofEntry c o e = .ok (info, events) ∧ info.entry = e ∧
      (∀ path inner, info.Within path inner →
        (∀ d, (inner.shown d).isSome = true ↔
          (o.shows d = true ∧ ∀ step ∈ path, step = d) ∧ path.length + 1 < o.maxDepth) ∧
        (∀ above, inner.sources = some above → ShowsSources c inner.entry above) ∧
        (∀ below, inner.derived = some below →
          c.getDerived inner.entry.id = .ok (below.map entry)) ∧
        (Direction.sources ∈ path → inner.derived = none) ∧
        (Direction.derived ∈ path → inner.sources = none)) ∧
      ∀ d x, (∃ path inner, info.Within (d :: path) inner ∧ inner.entry = x) ↔
        o.shows d = true ∧ ∃ n, 0 < n ∧ n < o.maxDepth ∧ d.Reaches c n e x := by
  obtain ⟨⟨info, events⟩, hinfo⟩ :=
    exists_unfold hread (o.maxDepth - 1) o.showSources o.showDerived e
  obtain rfl := entry_of_unfold hinfo
  have h : Describes c (o.maxDepth - 1) o.shows info := ⟨events, hinfo⟩
  refine ⟨info, events, hinfo, rfl, fun path inner hinner => ?_, fun d x => ⟨?_, ?_⟩⟩
  · obtain ⟨_, -, hdescribes⟩ := h.within hinner
    refine ⟨fun d => ?_, fun _ => hdescribes.showsSources, fun _ => hdescribes.getDerived, ?_, ?_⟩
    · rw [h.isSome_within hinner d]
      exact and_congr_right fun _ => by omega
    · exact fun hsources => h.shown_eq_none hinner hsources .derived nofun
    · intro hderived
      exact Option.map_eq_none_iff.mp (h.shown_eq_none hinner hderived .sources nofun)
  · rintro ⟨path, inner, hinner, rfl⟩
    obtain ⟨fewer, hlevels, -⟩ := h.within hinner
    obtain ⟨hfollow, hpath⟩ := h.straight hinner
    rw [List.length_cons] at hlevels
    refine ⟨hfollow, path.length + 1, Nat.succ_pos _, by omega, ?_⟩
    exact h.reaches hinner (List.forall_mem_cons.mpr ⟨rfl, hpath⟩)
  · rintro ⟨hfollow, n, hpos, hn, hreaches⟩
    obtain ⟨n, rfl⟩ := Nat.exists_eq_add_of_lt hpos
    rw [Nat.zero_add] at hn hreaches
    obtain ⟨inner, hinner, hentry⟩ := h.exists_within hreaches rfl hfollow (by omega)
    exact ⟨List.replicate n d, inner, hinner, hentry⟩

section Loop

/-- Two datasets are sources of each other; one names a source besides that is not recorded. -/
def loopCatalog : Catalog :=
  [Cascade.windowRecord ⟨1⟩ [("back", ⟨2⟩), ("gone", ⟨9⟩)] 0,
    Cascade.windowRecord ⟨2⟩ [("raw", ⟨1⟩)] 0].foldl Catalog.insert
      { Catalog.empty with products := [⟨"window", none, .empty, []⟩] }

/-- Three levels of the loop: it comes back to the first dataset and ends there. -/
theorem loop_unfolded : loopCatalog.Readable ∧ ∃ first info events,
    loopCatalog.get? ⟨1⟩ = .ok (some first) ∧
      ofEntry loopCatalog ⟨true, true, 3⟩ first = .ok (info, events) ∧
      (∃ above, info.sources = some above ∧
        (above.map fun s => (s.1, s.2.entry.id)) = [("back", ⟨2⟩)]) ∧
      (∃ path inner, info.Within (.sources :: path) inner ∧ inner.entry = first) ∧
      ∀ path inner, info.Within path inner → path.length = 2 →
        inner.sources = none ∧ inner.derived = none := by
  have hread : loopCatalog.Readable := Catalog.readable_of_registered (by decide)
  obtain ⟨first, hfirst, hsources⟩ : ∃ first, loopCatalog.get? ⟨1⟩ = .ok (some first) ∧
      first.sources.entries = [("back", ⟨2⟩), ("gone", ⟨9⟩)] := ⟨_, rfl, rfl⟩
  obtain ⟨second, hsecond, hback⟩ : ∃ second, loopCatalog.get? ⟨2⟩ = .ok (some second) ∧
      second.sources.entries = [("raw", ⟨1⟩)] := ⟨_, rfl, rfl⟩
  obtain ⟨info, events, hinfo, rfl, hrecords, hreached⟩ :=
    ofEntry_unfolds_lineage hread ⟨true, true, 3⟩ first
  obtain ⟨hshown, habove, -⟩ := hrecords [] info .here
  have hstep : Direction.sources.Leads loopCatalog info.entry second :=
    ⟨⟨2⟩, by rw [OrderedMap.values, hsources]; exact List.mem_cons_self, hsecond⟩
  have hreturn : Direction.sources.Leads loopCatalog second info.entry :=
    ⟨⟨1⟩, by rw [OrderedMap.values, hback]; exact List.mem_cons_self, hfirst⟩
  refine ⟨hread, info.entry, info, events, hfirst, hinfo, ?_, ?_, ?_⟩
  · obtain ⟨infos, hinfos⟩ := Option.isSome_iff_exists.mp
      ((hshown .sources).mpr ⟨⟨rfl, List.forall_mem_nil _⟩, by decide⟩)
    obtain ⟨above, hsome, -⟩ := Option.map_eq_some_iff.mp hinfos
    refine ⟨above, hsome, ?_⟩
    rw [(habove above hsome).classified, hsources]
    rfl
  · exact (hreached .sources info.entry).mpr
      ⟨rfl, 2, by decide, by decide, .step hstep (.step hreturn .refl)⟩
  · intro path inner hinner hlength
    have hend : ∀ d, inner.shown d = none := by
      refine fun d => Option.not_isSome_iff_eq_none.mp fun hsome => ?_
      have hlevel := (((hrecords path inner hinner).1 d).mp hsome).2
      rw [hlength] at hlevel
      exact absurd hlevel (by decide)
    exact ⟨Option.map_eq_none_iff.mp (hend .sources), hend .derived⟩

end Loop

end DatasetInfo

end DatasetCatalog
