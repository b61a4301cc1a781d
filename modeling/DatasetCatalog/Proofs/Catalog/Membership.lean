import DatasetCatalog.Proofs.Catalog.Curation
import DatasetCatalog.Proofs.Document.ChangeRules
import DatasetCatalog.Proofs.Document.Containment

/-!
# Who contains the signature of its product

A dataset is classified once, when it is recorded, and keeps its product from then on. That it
contains the product's signature is checked then and not again: an update is judged by change rules
alone. So a dataset keeps the signature as long as every update that it is given brings a document
that still contains it, or comes with rules that spare it. One dataset does not depend on the
updates of another, and an ancestor that is recorded already is not written again.
-/

namespace DatasetCatalog

/-- No change that the rules allow undoes that the signature is contained. -/
def ChangeRules.Spares (rules : ChangeRules) (signature : Document) : Prop :=
  ∀ d, rules.allows d = true → signature.value.spoiledBy d.left d.path = false

/-- An update under these rules leaves its product's signature contained: the new document contains
it anyway, or the rules spare it and none of its integers can be taken for another. -/
def UpdateCandidate.KeepsSignature (mode : CaseMode) (rules : ChangeRules) (u : UpdateCandidate) :
    Prop :=
  u.dataset.metadata.contains mode u.dataset.product.metadata = true ∨
    (rules.Spares u.dataset.product.metadata ∧ u.dataset.product.metadata.value.Exact)

/-- If it is an update of `id`, it keeps the signature. -/
def UpdateCandidate.KeepsSignatureOf (id : Identity) (mode : CaseMode) (rules : ChangeRules)
    (u : UpdateCandidate) : Prop :=
  u.dataset.id = some id → u.KeepsSignature mode rules

namespace Catalog

variable {layout : Layout} {mode : CaseMode} {c c' : Catalog} {id : Identity}

/-- The dataset, if it is recorded, has a registered product and contains its signature. -/
def Signed (mode : CaseMode) (c : Catalog) (id : Identity) : Prop :=
  ∀ {d : StoredDataset}, c.datasets.find? id = some d →
    ∃ p, c.product? d.product = some p ∧ d.metadata.contains mode p.metadata = true

theorem Change.signed
    (hchange : Change layout mode (UpdateCandidate.KeepsSignatureOf id mode) c c')
    (h : c.Signed mode id) : c'.Signed mode id := by
  intro after hafter
  cases hchange.origin hafter with
  | kept before found keeps =>
      obtain ⟨p, hp, hcontains⟩ := h found
      rw [keeps.product, keeps.metadata]
      exact ⟨p, hchange.grows.products hp, hcontains⟩
  | added n new classified identified product metadata =>
      rw [product, metadata]
      refine ⟨n.product, hchange.grows.products classified.registered, ?_⟩
      rcases classified.signed with hcontains | ⟨id', hid', hrecorded⟩
      · exact hcontains
      · cases identified.symm.trans hid'
        cases new.symm.trans hrecorded
  | updated before u rules found staged brought identified product sameProduct metadata allowed =>
      rw [product, sameProduct, metadata]
      refine ⟨u.dataset.product, hchange.grows.products staged.registered, ?_⟩
      rcases brought identified with hcontains | ⟨hspares, hexact⟩
      · exact hcontains
      · obtain ⟨p, hp, hcontains⟩ := h found
        rw [sameProduct, show c.product? u.dataset.product.name = some u.dataset.product from
          staged.registered] at hp
        cases hp
        exact Document.contains_of_spared hexact (fun d hd => hspares d (allowed d hd)) hcontains

theorem Chain.signed
    (hchain : Chain layout mode (UpdateCandidate.KeepsSignatureOf id mode) c c')
    (h : c.Signed mode id) : c'.Signed mode id := by
  induction hchain with
  | refl => exact h
  | tail _ hchange ih => exact hchange.signed ih

end Catalog

namespace Curation

variable {layout : Layout} {mode : CaseMode}

/-- In every curation a dataset contains the signature of its registered product if all updates that
it was given keep that signature. -/
theorem contains_signature_of_kept (actions : List Action) {id : Identity}
    (hkept : start.AllBring layout mode (UpdateCandidate.KeepsSignatureOf id mode) actions)
    {d : StoredDataset} (hd : (run layout mode actions).catalog.datasets.find? id = some d) :
    ∃ p, (run layout mode actions).catalog.product? d.product = some p ∧
      d.metadata.contains mode p.metadata = true := by
  have hchain : Catalog.Chain layout mode (UpdateCandidate.KeepsSignatureOf id mode) Catalog.empty
      (run layout mode actions).catalog := (sound_start.run hkept).1
  exact hchain.signed (fun h => nomatch h) hd

section Platforms

def platformProduct : Product := ⟨"platform", none, .ofFields [("platform", .text "X")], []⟩

def platformScene (platform cloud : String) : Document := .ofFields
  [("id", .text (String.ofList (List.replicate 32 '1'))), ("platform", .text platform),
    ("cloud", .text cloud)]

def platformId : Identity := ⟨0x11111111111111111111111111111111⟩

/-- A cloudy scene of platform `X` is indexed, then updated under the rules. -/
def platformActions (rules : ChangeRules) (scene : Document) : List Action :=
  [.addProduct platformProduct, .loadRules [] .standard,
    .index 0 ⟨true, false⟩ (fun _ => default) [("scene", platformScene "X" "much")],
    .stage scene "scene", .update [0] ⟨rules, .keep, false⟩]

def cloudRules : ChangeRules := OrderedMap.empty.insert [.key "cloud"] .any

def platformRules : ChangeRules := OrderedMap.empty.insert [.key "platform"] .any

/-- Rules for another field spare the signature. -/
theorem spares_cloudRules : cloudRules.Spares platformProduct.metadata := by
  intro d hd
  obtain ⟨p, hp, rest, hpath⟩ := ChangeRules.exists_rule_of_allows hd
  cases List.mem_singleton.mp hp
  rw [← hpath]
  rfl

theorem exact_platform : platformProduct.metadata.value.Exact :=
  Value.exact_mapping fun _ hf => List.mem_singleton.mp hf ▸ Value.exact_text "X"

/-- The scene's cloud cover is revised; a move to another platform is refused. -/
def revisionActions : List Action :=
  platformActions cloudRules (platformScene "X" "little") ++
    [.stage (platformScene "Y" "little") "scene", .update [1] ⟨cloudRules, .keep, false⟩]

/-- The scene is still a member, whatever the refused update would have done. -/
theorem revised_scene_contains_signature : ∃ d,
    (run {} .sensitive revisionActions).catalog.datasets.find? platformId = some d ∧
      d.metadata.get? [.key "cloud"] = some (.text "little") ∧
      d.metadata.contains .sensitive platformProduct.metadata = true := by
  have hkept : start.AllBring {} .sensitive (UpdateCandidate.KeepsSignatureOf platformId .sensitive)
      revisionActions := by
    refine ⟨trivial, trivial, trivial, trivial, ⟨fun _ _ _ _ => .inr ?_, trivial⟩, trivial,
      ⟨fun _ _ hrefused => ?_, trivial⟩, trivial⟩
    · exact ⟨spares_cloudRules, exact_platform⟩
    · cases hrefused
  obtain ⟨p, hp, hcontains⟩ := contains_signature_of_kept _ hkept rfl
  cases hp
  exact ⟨_, rfl, rfl, hcontains⟩

/-- Under rules for the signature's own field the scene leaves its product's signature. -/
theorem moved_scene_lacks_signature : ∃ d,
    (run {} .sensitive
      (platformActions platformRules (platformScene "Y" "much"))).catalog.datasets.find?
        platformId = some d ∧
      (run {} .sensitive
        (platformActions platformRules (platformScene "Y" "much"))).catalog.product?
          d.product = some platformProduct ∧
      d.metadata.contains .sensitive platformProduct.metadata = false :=
  ⟨_, rfl, rfl, rfl⟩

end Platforms

end Curation

end DatasetCatalog
