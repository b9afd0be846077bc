import AssetGroups.Backup
import AssetGroups.Job.Dispatch
import AssetGroups.Proofs.Guarantee
import AssetGroups.Proofs.Json.Inversion

/-!
# What the parts of jobs guarantee

Payloads that are read, groups that are checked, and features that are answered one by one.
-/

namespace AssetGroups

open Json Text

variable {α β : Type} {P : Site → Prop} {R : Site → Site → Prop} {E : GroupError → Prop}

/-- The payload is read as `a`. -/
def Decodes (d : Decoder α) (payload : List UInt8) (a : α) : Prop :=
  decodeScanned d (Utf8.scan payload) = .ok a

theorem decodePayload_guarantees {d : Decoder α} {payload : List UInt8} (hempty : E .emptyPayload)
    (hwrong : E .wrongPayload) : (decodePayload d payload).Guarantees P R (Decodes d payload) E := by
  unfold decodePayload
  split
  · exact .throw hempty
  · split
    · exact .pure ‹_›
    · exact .throw hwrong

theorem Group.demandValid_guarantees {g : Group} (hviolation : ∀ v, E (.ofViolation v)) :
    g.demandValid.Guarantees P R (fun _ => g.check = .ok ()) E := by
  unfold demandValid
  cases hcheck : g.check with
  | error v => exact .throw (hviolation v)
  | ok => exact .pure rfl

namespace Backup

/-- What is answered for each of the features asked for is found under its name. -/
theorem find?_answered {κ β : Type} {name : κ → String} {p : β → Prop} {keys : List κ}
    {entries : List (String × β)}
    (h : List.Forall₂ (fun key e => e.1 = name key ∧ p e.2) keys entries) :
    ∀ key ∈ keys, ∃ b, Dict.find? (name key) (Dict.ofEntries entries) = some b ∧ p b := by
  have hentries : (∀ e ∈ entries, p e.2) ∧ ∀ key ∈ keys, ∃ e ∈ entries, e.1 = name key := by
    induction h with
    | nil => simp
    | cons hfirst _ ih =>
        refine ⟨List.forall_mem_cons.mpr ⟨hfirst.2, ih.1⟩,
          List.forall_mem_cons.mpr ⟨⟨_, List.mem_cons_self, hfirst.1⟩, fun key hkey => ?_⟩⟩
        obtain ⟨e, he, hname⟩ := ih.2 key hkey
        exact ⟨e, List.mem_cons_of_mem _ he, hname⟩
  exact fun key hkey =>
    Dict.exists_find?_ofEntries (fun e he _ => hentries.1 e he) (hentries.2 key hkey)

end Backup

end AssetGroups
