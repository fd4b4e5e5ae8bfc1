import PackageGate.Package

/-!
# Keys of packages

The key `name@version` tells two packages apart when their names are plain: not empty,
and with no `@` but perhaps as the first character, where it marks a scope.

- `Package.Plain`: plain names.
- `Package.key_inj`: packages with plain names and the same key are the same.
-/

namespace PackageGate

namespace Package

/-- A name that is not empty and has no `@` after its first character. -/
structure Plain (name : String) : Prop where
  nonempty : name.toList ≠ []
  plain : '@' ∉ name.toList.tail

/-- What stands in front of the first separator determines where it stands. -/
theorem append_cons_inj {α : Type} {a : α} {xs ys us vs : List α} (hx : a ∉ xs) (hy : a ∉ ys)
    (h : xs ++ a :: us = ys ++ a :: vs) : xs = ys ∧ us = vs := by
  induction xs generalizing ys with
  | nil =>
    cases ys with
    | nil => exact ⟨rfl, (List.cons.inj h).2⟩
    | cons y ys =>
      have hay : a = y := (List.cons.inj h).1
      exact absurd (hay ▸ List.mem_cons_self) hy
  | cons x xs ih =>
    cases ys with
    | nil =>
      have hxa : x = a := (List.cons.inj h).1
      exact absurd (hxa ▸ List.mem_cons_self) hx
    | cons y ys =>
      obtain ⟨hxy, htail⟩ := List.cons.inj h
      have hx' : a ∉ xs := fun hmem => hx (List.mem_cons_of_mem _ hmem)
      have hy' : a ∉ ys := fun hmem => hy (List.mem_cons_of_mem _ hmem)
      obtain ⟨hxs, hus⟩ := ih hx' hy' htail
      exact ⟨by rw [hxy, hxs], hus⟩

/-- A key is the name and the version with an at sign in between. -/
theorem toList_key (p : Package) : p.key.toList = p.name.toList ++ '@' :: p.version.toList := by
  unfold key
  rw [String.toList_append, String.toList_append, List.append_assoc]
  rfl

/-- The key determines a package with a plain name. -/
theorem key_inj {p q : Package} (hp : Plain p.name) (hq : Plain q.name) (h : p.key = q.key) :
    p = q := by
  have hlist : p.name.toList ++ '@' :: p.version.toList =
      q.name.toList ++ '@' :: q.version.toList := by
    rw [← toList_key, ← toList_key, h]
  -- The first character may be the mark of a scope, so the separator is looked for behind it.
  obtain ⟨c, r, hpname⟩ := List.exists_cons_of_ne_nil hp.nonempty
  obtain ⟨d, s, hqname⟩ := List.exists_cons_of_ne_nil hq.nonempty
  have hr : '@' ∉ r := by
    have hplain := hp.plain
    rwa [hpname] at hplain
  have hs : '@' ∉ s := by
    have hplain := hq.plain
    rwa [hqname] at hplain
  rw [hpname, hqname] at hlist
  obtain ⟨hcd, htail⟩ := List.cons.inj hlist
  obtain ⟨hrs, hversion⟩ := append_cons_inj hr hs htail
  have hname : p.name = q.name := by
    rw [← String.toList_inj, hpname, hqname, hcd, hrs]
  -- Name and version agree, so the packages do.
  cases p with
  | mk name version =>
    cases q with
    | mk name' version' =>
      obtain rfl : name = name' := hname
      obtain rfl : version = version' := String.toList_inj.mp hversion
      rfl

/-- A package that was made has a name that is not blank. -/
theorem nonblank_of_make {name version : String} {p : Package}
    (h : make name version = .ok p) : p.name = name ∧ p.version = version ∧
      Text.isBlankText p.name = false := by
  unfold make at h
  cases hblank : Text.isBlankText name with
  | true =>
    rw [hblank] at h
    cases h
  | false =>
    rw [hblank, if_neg Bool.false_ne_true] at h
    cases hlengths : checkLengths name version with
    | error e =>
      rw [hlengths] at h
      cases h
    | ok u =>
      rw [hlengths] at h
      cases h
      exact ⟨rfl, rfl, hblank⟩

/-- A name that is not blank is not empty. -/
theorem toList_ne_nil_of_nonblank {name : String} (h : Text.isBlankText name = false) :
    name.toList ≠ [] := by
  intro hnil
  rw [Text.isBlankText, hnil] at h
  cases h

end Package

end PackageGate
