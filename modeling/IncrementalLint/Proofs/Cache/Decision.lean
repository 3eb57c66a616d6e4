import IncrementalLint.Cache.Decision
import IncrementalLint.Proofs.Files.SameBut
import Mathlib.Data.List.Find

/-!
# What a reused outcome goes by

* `decideUnit_cached_iff_found`  the nodes that are looked at, and how old they are;
* `decideUnit_congr_listed`      nothing else is looked at.
-/

namespace IncrementalLint

open Workspace

section
variable {w : Workspace} {path : Path} {T : Time}

theorem isUnchanged_iff : isUnchanged w path T = true ↔ ∃ l n, w.find path = .ok (l, n) ∧ n.modified ≤ T := by
  unfold isUnchanged
  cases hm : w.modified path with
  | ok t =>
    obtain ⟨l, n, hf, rfl⟩ := modified_eq_ok_iff.mp hm
    simp only [hf, Except.ok.injEq, Prod.mk.injEq, decide_eq_true_eq]
    exact ⟨fun h => ⟨l, n, ⟨rfl, rfl⟩, h⟩, fun ⟨_, _, ⟨_, hn⟩, h⟩ => hn ▸ h⟩
  | error e =>
    refine ⟨fun h => absurd h (by simp), fun ⟨l, n, hf, _⟩ => ?_⟩
    exact absurd (hm.symm.trans (modified_eq_ok_iff.mpr ⟨l, n, hf, rfl⟩)) (by simp)

theorem listing_read_iff {files : PathSet} :
    Listing.read w path = .ok (some files) ↔
      ∃ l n text, w.find path = .ok (l, n) ∧ n.text? = some text ∧ files = Listing.parse text := by
  unfold Listing.read
  constructor
  · intro h
    split at h
    next text ht =>
      obtain ⟨l, n, hf, hn⟩ := readText_eq_ok_iff.mp ht
      exact ⟨l, n, text, hf, hn, (Option.some.inj (Except.ok.inj h)).symm⟩
    · exact absurd h (by simp)
    · contradiction
  · rintro ⟨l, n, text, hf, hn, rfl⟩
    rw [readText_eq_ok_iff.mpr ⟨l, n, hf, hn⟩]

theorem currentListing_iff {reference : Option Time} {files : PathSet} :
    currentListing w path reference = .ok (T, files) ↔ reference = some T ∧
      ∃ l n text, w.find path = .ok (l, n) ∧ n.text? = some text ∧ n.modified < T ∧
        files = Listing.parse text := by
  unfold currentListing
  constructor
  · intro h
    split at h
    · contradiction
    next t ht =>
      split at h
      · contradiction
      next T' =>
        split at h
        · contradiction
        next hlt =>
          split at h
          next files' hr =>
            obtain ⟨rfl, rfl⟩ := Prod.mk.inj (Except.ok.inj h)
            obtain ⟨l, n, text, hf, hn, hfiles⟩ := listing_read_iff.mp hr
            obtain ⟨l', n', hf', rfl⟩ := modified_eq_ok_iff.mp ht
            obtain ⟨rfl, rfl⟩ := found_unique hf' hf
            exact ⟨rfl, l, n, text, hf, hn, Int.not_le.mp hlt, hfiles⟩
          next => contradiction
  · rintro ⟨rfl, l, n, text, hf, hn, hlt, rfl⟩
    rw [modified_eq_ok_iff.mpr ⟨l, n, hf, rfl⟩]
    simp only [if_neg (Int.not_le.mpr hlt), listing_read_iff.mpr ⟨l, n, text, hf, hn, rfl⟩]

/-- an outcome is reused by a listing older than the store, and files no younger than it -/
theorem decideUnit_cached_iff_found {id : String} {listing dir : Path} {s : Store} {o : Outcome} :
    decideUnit w id listing dir s = .cached o ↔ s.get? id = some o ∧ o.passed = true ∧
      ∃ T l n text, s.reference = some T ∧ w.find listing = .ok (l, n) ∧ n.text? = some text ∧
        n.modified < T ∧ ∀ f ∈ (Listing.parse text).paths,
          ∃ k m, w.find (dir.join f) = .ok (k, m) ∧ m.modified ≤ T := by
  rw [decideUnit_cached_iff]
  refine and_congr_right fun _ => and_congr_right fun _ => ?_
  simp only [currentListing_iff, isUnchanged_iff]
  constructor
  · rintro ⟨T, _, ⟨hr, l, n, text, hf, hn, hlt, rfl⟩, hfiles⟩
    exact ⟨T, l, n, text, hr, hf, hn, hlt, hfiles⟩
  · rintro ⟨T, l, n, text, hr, hf, hn, hlt, hfiles⟩
    exact ⟨T, _, ⟨hr, l, n, text, hf, hn, hlt, rfl⟩, hfiles⟩

/-! ## in two workspaces -/

variable {v : Workspace}

theorem isUnchanged_congr (h : (v.modified path).toOption = (w.modified path).toOption) :
    isUnchanged v path T = isUnchanged w path T := by
  unfold isUnchanged
  rcases cases_of_toOption h with ⟨e, e', hw, hv⟩ | ⟨t, hw, hv⟩
  · rw [hw, hv]
  · rw [hw, hv]

/-- whatever keeps a listing from being read, it counts as missing -/
theorem currentListing_of_unreadable {t : Time} {e : FileError} (hm : w.modified path = .ok t) (hlt : ¬T ≤ t)
    (hr : w.readText path = .error e) : currentListing w path (some T) = .error .missingListing := by
  rw [currentListing, hm]
  dsimp only
  rw [if_neg hlt, Listing.read, hr]
  cases e <;> rfl

theorem currentListing_congr (hm : (v.modified path).toOption = (w.modified path).toOption)
    (ht : (v.readText path).toOption = (w.readText path).toOption) (reference : Option Time) :
    currentListing v path reference = currentListing w path reference := by
  rcases cases_of_toOption hm with ⟨e, e', hw, hv⟩ | ⟨t, hw, hv⟩
  · rw [currentListing, currentListing, hw, hv]
  · cases reference with
    | none => rw [currentListing, currentListing, hw, hv]
    | some T =>
      by_cases hlt : T ≤ t
      · rw [currentListing, currentListing, hw, hv]
        dsimp only
        rw [if_pos hlt, if_pos hlt]
      · rcases cases_of_toOption ht with ⟨e, e', hw', hv'⟩ | ⟨text, hw', hv'⟩
        · rw [currentListing_of_unreadable hv hlt hv', currentListing_of_unreadable hw hlt hw']
        · rw [currentListing, currentListing, hw, hv, Listing.read, Listing.read, hw', hv']

section
variable {listing dir : Path}

/-- a decision goes by the listing, and by the times of the files in it -/
theorem decideUnit_congr_listed (hm : (v.modified listing).toOption = (w.modified listing).toOption)
    (ht : (v.readText listing).toOption = (w.readText listing).toOption)
    (hfiles : ∀ text, w.readText listing = .ok text → ∀ f ∈ (Listing.parse text).paths,
      (v.modified (dir.join f)).toOption = (w.modified (dir.join f)).toOption) (id : String) (s : Store) :
    decideUnit v id listing dir s = decideUnit w id listing dir s := by
  unfold decideUnit
  rw [currentListing_congr hm ht]
  cases hc : currentListing w listing s.reference with
  | error reason => rfl
  | ok x =>
    obtain ⟨T, files⟩ := x
    obtain ⟨_, l, n, text, hf, hn, _, rfl⟩ := currentListing_iff.mp hc
    have htext : w.readText listing = .ok text := readText_eq_ok_iff.mpr ⟨l, n, hf, hn⟩
    have hfind : (Listing.parse text).paths.find? (fun f => !isUnchanged v (dir.join f) T) =
        (Listing.parse text).paths.find? fun f => !isUnchanged w (dir.join f) T := by
      refine List.find?_congr fun f hf => ?_
      rw [isUnchanged_congr (hfiles text htext f hf)]
    dsimp only
    rw [hfind]

/-- nothing else than the text of the listing and the times of files is looked at -/
theorem decideUnit_congr (hm : ∀ p, (v.modified p).toOption = (w.modified p).toOption)
    (ht : (v.readText listing).toOption = (w.readText listing).toOption) (id : String) (dir : Path)
    (s : Store) : decideUnit v id listing dir s = decideUnit w id listing dir s :=
  decideUnit_congr_listed (hm listing) ht (fun _ _ f _ => hm (dir.join f)) id s

end

end

end IncrementalLint
