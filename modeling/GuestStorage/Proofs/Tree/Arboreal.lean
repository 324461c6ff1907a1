import GuestStorage.Proofs.Tree.Ways
import GuestStorage.Proofs.Tree.Weight
import Mathlib.Data.List.Nodup

namespace GuestStorage.Tree

variable {σ F D : Type} [Backing σ F D]

def DirectoryView.Bare (s : σ) (dir : DirectoryView D) : Prop := dir.files s = [] ∧ dir.subdirectories s = []

/-- Directories are listed once, in one directory, and no way down is longer than a walk. -/
structure Arboreal (s : σ) : Prop where
  listed_once : ∀ dir : DirectoryView D, (dir.subdirectories s).Nodup
  one_holder : ∀ {dir other sub : DirectoryView D},
    sub ∈ dir.subdirectories s → sub ∈ other.subdirectories s → dir = other
  short : ∀ {dir : DirectoryView D} {way : Way D}, ¬ dir.Bare s → dir.Leads s way →
    way.length < Backing.reach s dir.node

namespace Arboreal

variable {s : σ} {dir : DirectoryView D} {way other : Way D}

section Weight

theorem weighs_sizeWithin (s : σ) (depth : Nat) (dir : DirectoryView D)
    (short : ∀ way : Way D, ¬ dir.Bare s → dir.Leads s way → way.length < depth) :
    Weighs s [dir] (dir.sizeWithin s depth) := by
  induction depth generalizing dir with
  | zero =>
    have bare : dir.Bare s := by
      by_contra some_
      exact Nat.not_lt_zero _ (short [] some_ trivial)
    have none : Weighs s [dir] (((dir.files s).map (·.size s)).sum + 0 + 0) := .cons (bare.2 ▸ .nil) .nil
    rwa [bare.1] at none
  | succ depth ih =>
    rw [DirectoryView.sizeWithin_succ]
    refine .cons (.of_each fun sub listed => ih sub fun way _ leads => ?_) .nil
    obtain ⟨place, found⟩ := List.mem_iff_getElem?.mp listed
    have some_ : ¬ dir.Bare s := fun bare => List.ne_nil_of_mem listed bare.2
    exact Nat.lt_of_succ_lt_succ (short ((place, sub) :: way) some_ ⟨found, leads⟩)

theorem weighs_size (arboreal : Arboreal s) (dir : DirectoryView D) : Weighs s [dir] (dir.size s) :=
  weighs_sizeWithin s _ dir fun _ some_ leads => arboreal.short some_ leads

end Weight

section Unique

variable (arboreal : Arboreal s)
include arboreal

theorem no_cycle (leads : dir.Leads s way) (back : way.last dir = dir) : way = [] := by
  by_contra proper
  have again : ∀ rounds, ∃ long : Way D, rounds ≤ long.length ∧ dir.Leads s long ∧ long.last dir = dir := by
    intro rounds
    induction rounds with
    | zero => exact ⟨[], Nat.zero_le _, trivial, rfl⟩
    | succ rounds ih =>
      obtain ⟨long, enough, led, returned⟩ := ih
      refine ⟨long ++ way, ?_, DirectoryView.leads_append.mpr ⟨led, returned.symm ▸ leads⟩, ?_⟩
      · have more := List.length_pos_iff.mpr proper
        rw [List.length_append]
        omega
      · rw [Way.last_append, returned, back]
  have some_ : ¬ dir.Bare s := by
    obtain ⟨⟨place, sub⟩, rest, rfl⟩ := List.exists_cons_of_ne_nil proper
    exact fun bare => List.ne_nil_of_mem (List.mem_of_getElem? leads.1) bare.2
  obtain ⟨long, enough, led, -⟩ := again (Backing.reach s dir.node)
  exact Nat.not_lt.mpr enough (arboreal.short some_ led)

end Unique

end Arboreal

section Copies

variable {τ G E : Type} [Backing τ G E]

def DirectoryView.renamed (rename : D → E) (dir : DirectoryView D) : DirectoryView E := ⟨rename dir.node, dir.readOnly⟩

structure Copies (s : σ) (t : τ) (rename : D → E) : Prop where
  injective : Function.Injective rename
  files : ∀ dir, Backing.files t (rename dir) = [] ↔ Backing.files s dir = []
  subdirectories : ∀ dir, Backing.subdirectories t (rename dir) = (Backing.subdirectories s dir).map rename
  reach : ∀ dir, Backing.reach t (rename dir) = Backing.reach s dir

namespace Copies

variable {s : σ} {t : τ} {rename : D → E} {dir other : DirectoryView D} {way : Way E}

theorem renamed_injective (copies : Copies s t rename) : Function.Injective (DirectoryView.renamed rename) := by
  rintro ⟨node, access⟩ ⟨node', access'⟩ same
  simp only [DirectoryView.renamed, DirectoryView.mk.injEq] at same
  rw [copies.injective same.1, same.2]

variable (copies : Copies s t rename)
include copies

theorem subdirectories_renamed :
    (dir.renamed rename).subdirectories t = (dir.subdirectories s).map (·.renamed rename) := by
  simp only [DirectoryView.subdirectories, DirectoryView.renamed, copies.subdirectories, List.map_map]
  rfl

theorem bare_renamed : (dir.renamed rename).Bare t ↔ dir.Bare s := by
  rw [DirectoryView.Bare, DirectoryView.Bare, copies.subdirectories_renamed]
  simp only [DirectoryView.files, DirectoryView.renamed, List.map_eq_nil_iff, copies.files]

theorem leads_renamed (leads : (dir.renamed rename).Leads t way) :
    ∃ original : Way D, original.length = way.length ∧ dir.Leads s original := by
  induction way generalizing dir with
  | nil => exact ⟨[], rfl, trivial⟩
  | cons step rest ih =>
    obtain ⟨found, further⟩ := leads
    rw [copies.subdirectories_renamed, List.getElem?_map] at found
    obtain ⟨sub, listed, same⟩ := Option.map_eq_some_iff.mp found
    rw [← same] at further
    obtain ⟨original, long, led⟩ := ih further
    exact ⟨(step.1, sub) :: original, by simp [long], listed, led⟩

end Copies

/-- Storage is like trees where its directories are those of several such storages under other names. -/
theorem arboreal_of_copies {ι : Type} {parts : ι → σ} {t : τ} {rename : ι → D → E}
    (each : ∀ i, Arboreal (parts i)) (copies : ∀ i, Copies (parts i) t (rename i))
    (apart : ∀ {i j dir other}, rename i dir = rename j other → i = j)
    (cover : ∀ dir : DirectoryView E, dir.Bare t ∨ ∃ i original, dir = DirectoryView.renamed (rename i) original) :
    Arboreal t := by
  have original : ∀ {dir sub : DirectoryView E}, sub ∈ dir.subdirectories t → ∃ i holder inner,
      dir = DirectoryView.renamed (rename i) holder ∧ sub = DirectoryView.renamed (rename i) inner ∧
        inner ∈ holder.subdirectories (parts i) := by
    intro dir sub listed
    rcases cover dir with bare | ⟨i, holder, rfl⟩
    · exact absurd bare.2 (List.ne_nil_of_mem listed)
    · rw [(copies i).subdirectories_renamed] at listed
      obtain ⟨inner, among, rfl⟩ := List.mem_map.mp listed
      exact ⟨i, holder, inner, rfl, rfl, among⟩
  constructor
  · intro dir
    rcases cover dir with bare | ⟨i, holder, rfl⟩
    · rw [bare.2]
      exact List.nodup_nil
    · rw [(copies i).subdirectories_renamed]
      exact ((each i).listed_once holder).map (copies i).renamed_injective
  · intro dir other sub listed also
    obtain ⟨i, holder, inner, rfl, rfl, among⟩ := original listed
    obtain ⟨j, holder', inner', rfl, same, among'⟩ := original also
    obtain rfl := apart (congrArg DirectoryView.node same)
    obtain rfl := (copies i).renamed_injective same
    rw [(each i).one_holder among among']
  · intro dir way some_ leads
    obtain ⟨i, holder, rfl⟩ := (cover dir).resolve_left some_
    obtain ⟨shorter, long, led⟩ := (copies i).leads_renamed leads
    have bound := (each i).short (fun bare => some_ ((copies i).bare_renamed.mpr bare)) led
    rw [← long]
    exact (copies i).reach holder.node ▸ bound

end Copies

end GuestStorage.Tree
