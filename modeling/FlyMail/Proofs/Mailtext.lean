/-
The links of a mail.

Every link that is returned has been accepted by `cleanURL`, after the last thing that was done to it,
and is added only if it is not there yet and there are fewer than eight.
-/
import FlyMail.Message.Mailtext

namespace FlyMail.Mailtext

/-- What is known of an address that is accepted. -/
structure Clean (u : Text) : Prop where
  ne_nil : u ≠ []
  scheme : lowerStarts "http://".toList u = true ∨ lowerStarts "https://".toList u = true
  inLine : '\n' ∉ u ∧ '\r' ∉ u ∧ '\t' ∉ u
  short : u.length ≤ maxURLRunes

theorem clean_cleanURL {u : Text} (h : cleanURL u ≠ []) : Clean (cleanURL u) := by
  unfold cleanURL at h ⊢
  dsimp only at h ⊢
  generalize (Text.trimSpace u).rdropWhile isTrailing = v at h ⊢
  by_cases hnil : v = []
  · rw [if_pos hnil] at h
    exact absurd rfl h
  rw [if_neg hnil] at h ⊢
  by_cases hscheme : ¬ lowerStarts "http://".toList v ∧ ¬ lowerStarts "https://".toList v
  · rw [if_pos hscheme] at h
    exact absurd rfl h
  rw [if_neg hscheme] at h ⊢
  by_cases hbreak : (v.any fun c => c == '\n' || c == '\r' || c == '\t') = true
  · rw [if_pos hbreak] at h
    exact absurd rfl h
  rw [if_neg hbreak] at h ⊢
  by_cases hlong : maxURLRunes < v.length
  · rw [if_pos hlong] at h
    exact absurd rfl h
  rw [if_neg hlong]
  have hno (c : Char) (hc : c ∈ v) : c ≠ '\n' ∧ c ≠ '\r' ∧ c ≠ '\t' := by
    have hnone : ∀ x ∈ v, (x ≠ '\n' ∧ x ≠ '\r') ∧ x ≠ '\t' := by simpa using hbreak
    exact ⟨(hnone c hc).1.1, (hnone c hc).1.2, (hnone c hc).2⟩
  refine ⟨hnil, ?_, ⟨fun hc => (hno _ hc).1 rfl, fun hc => (hno _ hc).2.1 rfl, fun hc => (hno _ hc).2.2 rfl⟩,
    Nat.le_of_not_lt hlong⟩
  by_cases hhttp : lowerStarts "http://".toList v = true
  · exact .inl hhttp
  · exact .inr (by_contra fun hhttps => hscheme ⟨hhttp, hhttps⟩)

/-- What holds of the links there are at any time. -/
structure Picked (out : List Text) : Prop where
  clean : ∀ u ∈ out, Clean u
  nodup : out.Nodup
  few : out.length ≤ maxLinks

theorem Picked.add {out : List Text} {u : Text} (h : Picked out) (hfew : out.length < maxLinks)
    (hu : cleanURL u ≠ []) (hnew : cleanURL u ∉ out) : Picked (out ++ [cleanURL u]) := by
  refine ⟨fun v hv => ?_, ?_, ?_⟩
  · rcases List.mem_append.mp hv with hv | hv
    · exact h.clean v hv
    · rw [List.mem_singleton.mp hv]
      exact clean_cleanURL hu
  · exact List.nodup_append.mpr ⟨h.nodup, by simp, fun a ha b hb hab =>
      hnew ((List.mem_singleton.mp hb ▸ hab) ▸ ha)⟩
  · rw [List.length_append]
    exact hfew

theorem picked_takeLinks {raw : List Text} : ∀ {out : List Text}, Picked out → out.length < maxLinks →
    Picked (takeLinks out raw) := by
  induction raw with
  | nil => exact fun h _ => h
  | cons u raw ih =>
    intro out h hfew
    rw [takeLinks]
    by_cases hskip : cleanURL u = [] ∨ cleanURL u ∈ out
    · rw [if_pos hskip]
      exact ih h hfew
    · rw [if_neg hskip]
      obtain ⟨hu, hnew⟩ := not_or.mp hskip
      have hadd := h.add hfew hu hnew
      by_cases hfull : (out ++ [cleanURL u]).length = maxLinks
      · rw [if_pos hfull]
        exact hadd
      · rw [if_neg hfull]
        exact ih hadd (Nat.lt_of_le_of_ne hadd.few hfull)

theorem picked_dedupeLinks (raw : List Text) : Picked (dedupeLinks raw) :=
  picked_takeLinks ⟨fun _ hu => absurd hu List.not_mem_nil, List.nodup_nil, by decide⟩ (by decide)

/-- **The links of a mail** are at most eight different addresses of the web in one line each. -/
theorem picked_extract (unescape : Text → Text) (textBody htmlBody : Text) :
    Picked (extract unescape textBody htmlBody).links := by
  unfold extract
  split
  · exact picked_dedupeLinks _
  · split
    · exact ⟨fun _ hu => absurd hu List.not_mem_nil, List.nodup_nil, by decide⟩
    · exact picked_dedupeLinks _

end FlyMail.Mailtext
