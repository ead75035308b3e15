import Mathlib.Data.List.Perm.Basic
import SecureLlm.Library.Dict

/-!
# Catalogs and Their Files

A catalog lists entries by their id and writes each of them to a file, and it is
rebuilt from the files in whatever order they are found. Where the files have
names of their own, two entries may have one file, and one id several.

The catalog agrees with its files when rebuilding it gives it back whatever the
order. That is a condition on the files alone: each entry has one, and there are
no others.

## Main definitions

* `Format`: How entries are named and written.
* `Format.rebuild`: A catalog from its files.
* `Format.Agrees`: Rebuilding gives the catalog back.
* `Format.Paired`: Each entry has a file and each file an entry.
* `Format.Filed`: Entries and files are under their own names.
* `Format.Apart`: Adding an entry touches no file but its own.

## Theorems

* `Format.agrees_iff`: A catalog agrees with its files when they are paired.
* `Format.paired_add_iff`: When they are after an entry is added.
* `Format.paired_remove`: They are after one is removed.
-/

namespace Library

/-- How entries `E` with ids `I` are written to files `F` with names `P`. What is
    read back of an entry is the part of it that was written. -/
structure Format (I P E F : Type) where
  id : E → I
  path : E → P
  write : E → F
  read : F → Option E
  stored : E → E
  read_write : ∀ e, read (write e) = some (stored e)
  id_stored : ∀ e, id (stored e) = id e
  path_stored : ∀ e, path (stored e) = path e

namespace Format

variable {I P E F : Type} [DecidableEq I] (fmt : Format I P E F)

/-- Read the files one after the other. One that cannot be read is left out. -/
def rebuildFrom (d : Dict I E) : List F → Dict I E
  | [] => d
  | f :: rest =>
    match fmt.read f with
    | none => rebuildFrom d rest
    | some e => rebuildFrom (d.set (fmt.id e) e) rest

def rebuild (files : List F) : Dict I E := fmt.rebuildFrom .empty files

/-- In whatever order the files are read, the rebuilt catalog is this one. -/
def Agrees (live : Dict I E) (files : List F) : Prop :=
  ∀ order : List F, order.Perm files →
    ∀ i, (fmt.rebuild order).get? i = (live.get? i).map fmt.stored

/-- Each entry is read from some file, and what is read from a file is an entry. -/
structure Paired (live : Dict I E) (files : List F) : Prop where
  written : ∀ i e, live.get? i = some e → ∃ f ∈ files, fmt.read f = some (fmt.stored e)
  listed : ∀ f ∈ files, ∀ e', fmt.read f = some e' →
    ∃ e, live.get? (fmt.id e') = some e ∧ fmt.stored e = e'

/-- Entries are listed under their ids, and what is read from a file is of the
    file's name. -/
structure Filed [DecidableEq P] (live : Dict I E) (files : Dict P F) : Prop where
  byId : ∀ i e, live.get? i = some e → fmt.id e = i
  byPath : ∀ p f e, files.get? p = some f → fmt.read f = some e → fmt.path e = p

/-- The entry that has the id, if any, has the same file, and no other entry
    has. -/
def Apart (live : Dict I E) (e : E) : Prop :=
  ∀ i e', live.get? i = some e' → (i = fmt.id e ↔ fmt.path e' = fmt.path e)

variable {fmt}

theorem get?_rebuildFrom_append (d : Dict I E) (files later : List F) :
    fmt.rebuildFrom d (files ++ later) = fmt.rebuildFrom (fmt.rebuildFrom d files) later := by
  induction files generalizing d with
  | nil => rfl
  | cons f rest ih =>
      rw [List.cons_append, rebuildFrom, rebuildFrom]
      cases fmt.read f with
      | none => exact ih d
      | some e => exact ih _

/-- What is under an id was there before or has been read. -/
theorem get?_rebuildFrom_cases (fmt : Format I P E F) (d : Dict I E) (files : List F) (i : I) :
    (fmt.rebuildFrom d files).get? i = d.get? i ∧
        (∀ f ∈ files, ∀ e, fmt.read f = some e → fmt.id e ≠ i) ∨
      ∃ f ∈ files, ∃ e, fmt.read f = some e ∧ fmt.id e = i ∧
        (fmt.rebuildFrom d files).get? i = some e := by
  induction files generalizing d with
  | nil => exact Or.inl ⟨rfl, fun f hf => absurd hf List.not_mem_nil⟩
  | cons f rest ih =>
      rw [rebuildFrom]
      cases hread : fmt.read f with
      | none =>
          rcases ih d with ⟨hsame, hnone⟩ | ⟨f', hf', hlast⟩
          · refine Or.inl ⟨hsame, fun f' hf' e' hread' => ?_⟩
            rcases List.mem_cons.mp hf' with rfl | hrest
            · rw [hread] at hread'
              exact absurd hread' nofun
            · exact hnone f' hrest e' hread'
          · exact Or.inr ⟨f', List.mem_cons_of_mem _ hf', hlast⟩
      | some e =>
          rcases ih (d.set (fmt.id e) e) with ⟨hsame, hnone⟩ | ⟨f', hf', hlast⟩
          · rw [Dict.get?_set] at hsame
            by_cases hi : i = fmt.id e
            · rw [if_pos hi] at hsame
              exact Or.inr ⟨f, List.mem_cons_self, e, hread, hi.symm, hsame⟩
            · rw [if_neg hi] at hsame
              refine Or.inl ⟨hsame, fun f' hf' e' hread' => ?_⟩
              rcases List.mem_cons.mp hf' with rfl | hrest
              · rw [hread] at hread'
                rw [← Option.some.inj hread']
                exact Ne.symm hi
              · exact hnone f' hrest e' hread'
          · exact Or.inr ⟨f', List.mem_cons_of_mem _ hf', hlast⟩

/-- The file that is read last decides. -/
theorem get?_rebuild_last (files : List F) (f : F) (e : E) (hread : fmt.read f = some e) :
    (fmt.rebuild (files ++ [f])).get? (fmt.id e) = some e := by
  rw [rebuild, get?_rebuildFrom_append, rebuildFrom, hread]
  exact (Dict.get?_set _ _ _ _).trans (if_pos rfl)

/-- **Catalogs and files.** Rebuilding gives the catalog back in every order
    exactly when each entry has a file and each file an entry. -/
theorem agrees_iff (live : Dict I E) (files : List F)
    (hid : ∀ i e, live.get? i = some e → fmt.id e = i) :
    fmt.Agrees live files ↔ fmt.Paired live files := by
  constructor
  · intro h
    refine ⟨fun i e he => ?_, fun f hf e' hread => ?_⟩
    · have hi := h files (List.Perm.refl _) i
      rw [he, Option.map_some] at hi
      rcases get?_rebuildFrom_cases fmt Dict.empty files i with
        ⟨hsame, _⟩ | ⟨f, hf, e', hread, _, hlast⟩
      · rw [rebuild, hsame] at hi
        exact absurd hi nofun
      · rw [rebuild, hlast] at hi
        rw [← Option.some.inj hi]
        exact ⟨f, hf, hread⟩
    · -- Read this file last.
      rcases List.append_of_mem hf with ⟨before, later, rfl⟩
      have hperm : ((before ++ later) ++ [f]).Perm (before ++ f :: later) := by
        rw [List.append_assoc]
        exact List.Perm.append_left before (List.perm_append_singleton f later)
      have hi := h _ hperm (fmt.id e')
      rw [get?_rebuild_last (before ++ later) f e' hread] at hi
      rcases Option.map_eq_some_iff.mp hi.symm with ⟨e, he, hstored⟩
      exact ⟨e, he, hstored⟩
  · intro h order hperm i
    rcases get?_rebuildFrom_cases fmt Dict.empty order i with
      ⟨hsame, hnone⟩ | ⟨f, hf, e', hread, hi, hlast⟩
    · rw [rebuild, hsame, Dict.get?_empty]
      cases he : live.get? i with
      | none => rfl
      | some e =>
          rcases h.written i e he with ⟨f, hf, hread⟩
          have hne := hnone f (hperm.mem_iff.mpr hf) _ hread
          rw [fmt.id_stored, hid i e he] at hne
          exact absurd rfl hne
    · rw [rebuild, hlast]
      rcases h.listed f (hperm.mem_iff.mp hf) e' hread with ⟨e, he, hstored⟩
      rw [← hi, he, Option.map_some, hstored]

variable [DecidableEq P] {live : Dict I E} {files : Dict P F}

theorem mem_values_iff (f : F) : f ∈ files.values ↔ ∃ p, files.get? p = some f := by
  unfold Dict.values
  constructor
  · intro hf
    rcases List.mem_map.mp hf with ⟨⟨p, f'⟩, he, rfl⟩
    exact ⟨p, (files.mem_entries_iff p f').mp he⟩
  · rintro ⟨p, hp⟩
    exact List.mem_map.mpr ⟨(p, f), (files.mem_entries_iff p f).mpr hp, rfl⟩

/-- Where catalog and files are paired, an entry's file is under its name. -/
theorem Paired.file (h : fmt.Paired live files.values) (hfiled : fmt.Filed live files) {i : I}
    {e : E} (he : live.get? i = some e) :
    ∃ f, files.get? (fmt.path e) = some f ∧ fmt.read f = some (fmt.stored e) := by
  rcases h.written i e he with ⟨f, hf, hread⟩
  rcases (mem_values_iff f).mp hf with ⟨p, hp⟩
  have hpath := hfiled.byPath p f _ hp hread
  rw [fmt.path_stored] at hpath
  exact ⟨f, by rw [hpath]; exact hp, hread⟩

theorem Filed.add (h : fmt.Filed live files) (e : E) :
    fmt.Filed (live.set (fmt.id e) e) (files.set (fmt.path e) (fmt.write e)) where
  byId i e' he' := by
    rw [Dict.get?_set] at he'
    by_cases hi : i = fmt.id e
    · rw [if_pos hi] at he'
      rw [← Option.some.inj he', hi]
    · rw [if_neg hi] at he'
      exact h.byId i e' he'
  byPath p f e' hf hread := by
    rw [Dict.get?_set] at hf
    by_cases hp : p = fmt.path e
    · rw [if_pos hp] at hf
      rw [← Option.some.inj hf, fmt.read_write] at hread
      rw [← Option.some.inj hread, fmt.path_stored, hp]
    · rw [if_neg hp] at hf
      exact h.byPath p f e' hf hread

theorem Filed.remove (h : fmt.Filed live files) (i : I) (p : P) :
    fmt.Filed (live.erase i) (files.erase p) where
  byId i' e he := by
    rw [Dict.get?_erase] at he
    by_cases hi : i' = i
    · rw [if_pos hi] at he
      exact absurd he nofun
    · rw [if_neg hi] at he
      exact h.byId i' e he
  byPath p' f e hf hread := by
    rw [Dict.get?_erase] at hf
    by_cases hp : p' = p
    · rw [if_pos hp] at hf
      exact absurd hf nofun
    · rw [if_neg hp] at hf
      exact h.byPath p' f e hf hread

/-- **Adding an entry.** Catalog and files stay paired exactly when the entry
    that had the id has the same file, and no other entry has. -/
theorem paired_add_iff (h : fmt.Paired live files.values) (hfiled : fmt.Filed live files) (e : E) :
    fmt.Paired (live.set (fmt.id e) e) (files.set (fmt.path e) (fmt.write e)).values ↔
      fmt.Apart live e := by
  constructor
  · intro hnew i e' he'
    constructor
    · rintro rfl
      -- The file the id had before is read as an entry too.
      by_contra hpath
      rcases h.file hfiled he' with ⟨f, hf, hread⟩
      have hmem : f ∈ (files.set (fmt.path e) (fmt.write e)).values :=
        (mem_values_iff f).mpr ⟨fmt.path e', by rw [Dict.get?_set, if_neg hpath]; exact hf⟩
      rcases hnew.listed f hmem _ hread with ⟨e'', he'', hstored⟩
      rw [fmt.id_stored, hfiled.byId _ e' he', Dict.get?_set, if_pos rfl] at he''
      rw [← Option.some.inj he''] at hstored
      have hsame := congrArg fmt.path hstored
      rw [fmt.path_stored, fmt.path_stored] at hsame
      exact hpath hsame.symm
    · intro hpath
      by_contra hi
      have he'' : (live.set (fmt.id e) e).get? i = some e' := by
        rw [Dict.get?_set, if_neg hi]
        exact he'
      rcases hnew.file (hfiled.add e) he'' with ⟨f, hf, hread⟩
      rw [hpath, Dict.get?_set, if_pos rfl] at hf
      rw [← Option.some.inj hf, fmt.read_write] at hread
      have hsame := congrArg fmt.id (Option.some.inj hread)
      rw [fmt.id_stored, fmt.id_stored, hfiled.byId i e' he'] at hsame
      exact hi hsame.symm
  · intro hapart
    refine ⟨fun i e' he' => ?_, fun f hf e' hread => ?_⟩
    · rw [Dict.get?_set] at he'
      by_cases hi : i = fmt.id e
      · rw [if_pos hi] at he'
        rw [← Option.some.inj he']
        exact ⟨fmt.write e, (mem_values_iff _).mpr ⟨fmt.path e, by rw [Dict.get?_set, if_pos rfl]⟩,
          fmt.read_write e⟩
      · rw [if_neg hi] at he'
        rcases h.file hfiled he' with ⟨f, hf, hread⟩
        have hpath : fmt.path e' ≠ fmt.path e := fun hc => hi ((hapart i e' he').mpr hc)
        exact ⟨f, (mem_values_iff f).mpr ⟨_, by rw [Dict.get?_set, if_neg hpath]; exact hf⟩, hread⟩
    · rcases (mem_values_iff f).mp hf with ⟨p, hp⟩
      rw [Dict.get?_set] at hp
      by_cases hpe : p = fmt.path e
      · rw [if_pos hpe] at hp
        rw [← Option.some.inj hp, fmt.read_write] at hread
        refine ⟨e, ?_, Option.some.inj hread⟩
        rw [← Option.some.inj hread, fmt.id_stored, Dict.get?_set, if_pos rfl]
      · rw [if_neg hpe] at hp
        rcases h.listed f ((mem_values_iff f).mpr ⟨p, hp⟩) e' hread with ⟨e₀, he₀, hstored⟩
        have hpath : fmt.path e₀ = p := by
          rw [← fmt.path_stored, hstored]
          exact hfiled.byPath p f e' hp hread
        refine ⟨e₀, ?_, hstored⟩
        rw [Dict.get?_set, if_neg, he₀]
        intro hi
        exact hpe (hpath.symm.trans ((hapart _ e₀ he₀).mp hi))

/-- **Removing an entry** together with its file. -/
theorem paired_remove (h : fmt.Paired live files.values) (hfiled : fmt.Filed live files) {i : I}
    {e : E} (he : live.get? i = some e) :
    fmt.Paired (live.erase i) (files.erase (fmt.path e)).values := by
  rcases h.file hfiled he with ⟨f, hf, hread⟩
  refine ⟨fun i' e' he' => ?_, fun f' hf' e' hread' => ?_⟩
  · rw [Dict.get?_erase] at he'
    by_cases hi : i' = i
    · rw [if_pos hi] at he'
      exact absurd he' nofun
    · rw [if_neg hi] at he'
      rcases h.file hfiled he' with ⟨f', hf', hread'⟩
      have hpath : fmt.path e' ≠ fmt.path e := by
        intro hc
        -- Two entries with one file would be read from it as one.
        rw [hc, hf] at hf'
        rw [← Option.some.inj hf', hread] at hread'
        have hsame := congrArg fmt.id (Option.some.inj hread')
        rw [fmt.id_stored, fmt.id_stored, hfiled.byId i e he, hfiled.byId i' e' he'] at hsame
        exact hi hsame.symm
      exact ⟨f', (mem_values_iff f').mpr ⟨_, by rw [Dict.get?_erase, if_neg hpath]; exact hf'⟩,
        hread'⟩
  · rcases (mem_values_iff f').mp hf' with ⟨p, hp⟩
    rw [Dict.get?_erase] at hp
    by_cases hpe : p = fmt.path e
    · rw [if_pos hpe] at hp
      exact absurd hp nofun
    · rw [if_neg hpe] at hp
      rcases h.listed f' ((mem_values_iff f').mpr ⟨p, hp⟩) e' hread' with ⟨e₀, he₀, hstored⟩
      refine ⟨e₀, ?_, hstored⟩
      rw [Dict.get?_erase, if_neg, he₀]
      intro hi
      -- The entry removed has no file but its own.
      have hsame : e₀ = e := by
        rw [hi, he] at he₀
        exact (Option.some.inj he₀).symm
      have hpath := hfiled.byPath p f' e' hp hread'
      rw [← hstored, fmt.path_stored, hsame] at hpath
      exact hpe hpath.symm

end Format

end Library
