import Ployz.Config.Environment
import Mathlib.Data.List.Perm.Basic

/-!
# Documents in order

Saved State holds documents in order: Services, Volumes and variables by ID, mounts by path.
Ordering changes nothing but the order: the ordered document holds the same nodes, is
admitted when the document is, and is its own order.

Main results:

* `mem_canonicalize_services` and `mem_canonicalize_volumes`: what the ordered document holds;
* `canonicalize_wellFormed`, `canonicalize_canonicalize`.
-/

namespace Ployz

def VolumeAttachment.before (a b : VolumeAttachment) : Prop :=
  a.mountPath < b.mountPath ∨ (a.mountPath = b.mountPath ∧ a.volumeResourceId ≤ b.volumeResourceId)

instance : DecidableRel VolumeAttachment.before :=
  fun _ _ => inferInstanceAs (Decidable (_ ∨ _))

instance : Std.Total VolumeAttachment.before where
  total a b := by
    rcases lt_trichotomy a.mountPath b.mountPath with h | h | h
    · exact .inl (.inl h)
    · rcases le_total a.volumeResourceId b.volumeResourceId with hid | hid
      · exact .inl (.inr ⟨h, hid⟩)
      · exact .inr (.inr ⟨h.symm, hid⟩)
    · exact .inr (.inl h)

instance : IsTrans VolumeAttachment VolumeAttachment.before where
  trans a b c := by
    rintro (hab | ⟨hab, hids⟩) (hbc | ⟨hbc, hids'⟩)
    · exact .inl (hab.trans hbc)
    · exact .inl (hbc ▸ hab)
    · exact .inl (hab ▸ hbc)
    · exact .inr ⟨hab.trans hbc, hids.trans hids'⟩

/-- A Service with its variables and mounts in order. -/
def SavedServiceIntent.canonical (service : SavedServiceIntent) : SavedServiceIntent :=
  { service with
    vars := service.vars.insertionSort fun a b => a.id ≤ b.id
    volumeAttachments := service.volumeAttachments.insertionSort VolumeAttachment.before }

section

variable (intent : SavedEnvironmentIntent)

theorem canonicalize_services :
    (canonicalizeEnvironmentIntent intent).services =
      (intent.services.insertionSort fun a b => a.id ≤ b.id).map (·.canonical) := rfl

theorem canonicalize_volumes :
    (canonicalizeEnvironmentIntent intent).volumes =
      intent.volumes.insertionSort fun a b => a.resourceId ≤ b.resourceId := rfl

theorem mem_canonicalize_services {service : SavedServiceIntent} :
    service ∈ (canonicalizeEnvironmentIntent intent).services ↔
      ∃ s ∈ intent.services, s.canonical = service := by
  simp only [canonicalize_services, List.mem_map, List.mem_insertionSort]

theorem mem_canonicalize_volumes {volume : SavedVolumeIntent} :
    volume ∈ (canonicalizeEnvironmentIntent intent).volumes ↔ volume ∈ intent.volumes := by
  rw [canonicalize_volumes, List.mem_insertionSort]

theorem canonicalize_services_map {α : Type*} {g : SavedServiceIntent → α}
    (hg : ∀ s : SavedServiceIntent, g s.canonical = g s) :
    ((canonicalizeEnvironmentIntent intent).services.map g).Perm (intent.services.map g) := by
  have hcomp : (g ∘ fun s => s.canonical) = g := funext hg
  rw [canonicalize_services, List.map_map, hcomp]
  exact (List.perm_insertionSort _ _).map g

theorem canonicalize_volumes_perm :
    (canonicalizeEnvironmentIntent intent).volumes.Perm intent.volumes :=
  List.perm_insertionSort _ _

end

namespace SavedServiceIntent

variable (s : SavedServiceIntent)

theorem vars_canonical : s.canonical.vars.Perm s.vars := List.perm_insertionSort _ _

theorem volumeAttachments_canonical :
    s.canonical.volumeAttachments.Perm s.volumeAttachments := List.perm_insertionSort _ _

theorem canonical_canonical : s.canonical.canonical = s.canonical := by
  have hvars := List.Pairwise.insertionSort_eq
    (List.pairwise_insertionSort (fun a b : SavedVariableIntent => a.id ≤ b.id) s.vars)
  have hmounts := List.Pairwise.insertionSort_eq
    (List.pairwise_insertionSort VolumeAttachment.before s.volumeAttachments)
  simp only [canonical, hvars, hmounts]

end SavedServiceIntent

theorem Identities.perm {uuid : Bool} {values values' : List String} (h : values'.Perm values)
    (hv : Identities uuid values) : Identities uuid values' :=
  ⟨h.nodup_iff.mpr hv.nodup, fun value hvalue => hv.valid value (h.mem_iff.mp hvalue)⟩

theorem AdmitsService.canonical {volumes volumes' : List SavedVolumeIntent}
    {s : SavedServiceIntent} (h : AdmitsService volumes s)
    (hvolumes : ∀ v ∈ volumes, v ∈ volumes') : AdmitsService volumes' s.canonical := by
  have hvars := s.vars_canonical
  have hmounts := s.volumeAttachments_canonical
  refine ⟨h.keys.perm (hvars.map _), ?_, ?_, h.attachments.perm (hmounts.map _),
    h.mountPaths.perm (hmounts.map _), ?_⟩
  · exact fun v hv => h.fingerprints v (hvars.mem_iff.mp hv)
  · exact fun v hv => h.encrypted v (hvars.mem_iff.mp hv)
  · intro a ha
    obtain ⟨v, hv, hid⟩ := h.mounted a (hmounts.mem_iff.mp ha)
    exact ⟨v, hvolumes v hv, hid⟩

theorem flatMap_vars_canonicalize (intent : SavedEnvironmentIntent) :
    ((canonicalizeEnvironmentIntent intent).services.flatMap (·.vars)).Perm
      (intent.services.flatMap (·.vars)) := by
  rw [canonicalize_services, List.flatMap_map]
  refine (List.Perm.flatMap_left _ fun s _ => s.vars_canonical).trans ?_
  exact (List.perm_insertionSort _ _).flatMap_right _

/-- Ordering a well-formed document keeps it well formed. -/
theorem canonicalize_wellFormed {intent : SavedEnvironmentIntent} (h : WellFormed intent) :
    WellFormed (canonicalizeEnvironmentIntent intent) := by
  have hservices := fun {α : Type} (g : SavedServiceIntent → α) hg =>
    canonicalize_services_map intent (g := g) hg
  have hvolumes := canonicalize_volumes_perm intent
  refine ⟨⟨h.version, h.slug, h.serviceIds.perm (hservices _ fun _ => rfl),
    h.serviceLineages.perm (hservices _ fun _ => rfl), h.slugs.perm (hservices _ fun _ => rfl),
    h.volumeIds.perm (hvolumes.map _), h.volumeLineages.perm (hvolumes.map _),
    h.variableIds.perm ((flatMap_vars_canonicalize intent).map _), ?_, ?_⟩, ?_⟩
  · intro service hservice
    obtain ⟨s, hs, rfl⟩ := (mem_canonicalize_services intent).mp hservice
    exact (h.services s hs).canonical fun v hv => (mem_canonicalize_volumes intent).mpr hv
  · exact fun v hv => h.volumeNames v ((mem_canonicalize_volumes intent).mp hv)
  · intro service hservice
    obtain ⟨s, hs, rfl⟩ := (mem_canonicalize_services intent).mp hservice
    exact h.configs s hs

/-- An ordered document is its own order. -/
theorem canonicalize_canonicalize (intent : SavedEnvironmentIntent) :
    canonicalizeEnvironmentIntent (canonicalizeEnvironmentIntent intent) =
      canonicalizeEnvironmentIntent intent := by
  have hvolumes := List.Pairwise.insertionSort_eq
    (List.pairwise_insertionSort (fun a b : SavedVolumeIntent => a.resourceId ≤ b.resourceId)
      intent.volumes)
  have hsorted : (canonicalizeEnvironmentIntent intent).services.Pairwise fun a b =>
      a.id ≤ b.id := by
    rw [canonicalize_services, List.pairwise_map]
    exact List.pairwise_insertionSort (fun a b : SavedServiceIntent => a.id ≤ b.id) intent.services
  have hservices : (canonicalizeEnvironmentIntent (canonicalizeEnvironmentIntent intent)).services =
      (canonicalizeEnvironmentIntent intent).services := by
    rw [canonicalize_services, List.Pairwise.insertionSort_eq hsorted, canonicalize_services,
      List.map_map]
    exact List.map_congr_left fun s _ => s.canonical_canonical
  rw [SavedEnvironmentIntent.mk.injEq]
  exact ⟨rfl, rfl, hservices, hvolumes⟩

end Ployz
