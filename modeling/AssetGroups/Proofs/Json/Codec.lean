import AssetGroups.Proofs.Json.RoundTrip
import AssetGroups.Proofs.Json.Yields

/-!
# Values on the wire

A decoder and the JSON that is written for it: when a value survives being written and read. Lists
and dictionaries of values are as plain, and one level deeper, than what they hold.
-/

namespace AssetGroups.Json

open AssetGroups.Text

variable {α : Type}

namespace Value

variable {toJson : α → Value}

theorem allPlain_map {as : List α} (h : ∀ a ∈ as, (toJson a).Plain) :
    AllPlain (as.map toJson) := by
  induction as with
  | nil => trivial
  | cons a as ih =>
      obtain ⟨ha, has⟩ := List.forall_mem_cons.1 h
      exact ⟨ha, ih has⟩

theorem membersPlain_map {es : List (String × α)} (h : ∀ e ∈ es, (toJson e.2).Plain) :
    MembersPlain (es.map fun (k, a) => (k, toJson a)) := by
  induction es with
  | nil => trivial
  | cons e es ih =>
      obtain ⟨he, hes⟩ := List.forall_mem_cons.1 h
      exact ⟨he, ih hes⟩

theorem depthOfItems_map_le {as : List α} {n : Nat} :
    depthOfItems (as.map toJson) ≤ n ↔ ∀ a ∈ as, (toJson a).depth ≤ n := by
  induction as with
  | nil => simp [depthOfItems]
  | cons a as ih => rw [List.map_cons, depthOfItems, Nat.max_le, ih, List.forall_mem_cons]

end Value

/-- What is valid is read as it was written, in every layout, if its JSON is not too deep; and what
was read from any text can then be written and read again. -/
structure Decoder.RoundTrips (d : Decoder α) (toJson : α → Value) (valid : α → Prop) : Prop where
  written : ∀ (l : Layout) (a : α), valid a → decodeText d ((toJson a).laidOut l) =
    if (toJson a).depth ≤ textRoom then .ok a else .error .malformed
  reread : ∀ (l : Layout) (t : Scanned) (a : α), decodeScanned d t = .ok a →
    (toJson a).depth ≤ textRoom → decodeText d ((toJson a).laidOut l) = .ok a

theorem Decoder.RoundTrips.of_inverts {d : Decoder α} {toJson : α → Value} {valid : α → Prop}
    (hplain : ∀ a, (toJson a).Plain) (hinverts : ∀ a, valid a → d.Inverts (toJson a) a)
    (hyields : d.Yields valid) : d.RoundTrips toJson valid := by
  have hwritten : ∀ (l : Layout) (a : α), valid a → decodeText d ((toJson a).laidOut l) =
      if (toJson a).depth ≤ textRoom then .ok a else .error .malformed := by
    intro l a ha
    rw [decodeText_laidOut d l (hplain a), hinverts a ha]
  refine ⟨hwritten, fun l t a ht hdepth => ?_⟩
  rw [hwritten l a (decodeScanned_yields hyields ht), if_pos hdepth]

end AssetGroups.Json
