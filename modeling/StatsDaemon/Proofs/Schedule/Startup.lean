import Mathlib
import StatsDaemon.Config
import StatsDaemon.Receiver.Datagrams
import StatsDaemon.Schedule.Pipeline

namespace StatsDaemon

def wordLimit : Nat := 2 ^ 64

-- Tags for which room is made when a metric is read: those expected, the default ones, the host.
def Line.Rules.tagCapacity (rules : Line.Rules) : Nat :=
  rules.estimatedTags + rules.defaultTags.length + 1

namespace Config

theorem Aggregation.checkInterval_ne (c : Aggregation) : c.checkInterval ≠ 0 := by
  have hle : 1 ≤ c.checkInterval := Nat.le_max_right _ 1
  omega

theorem aggregation_validate {c : Config} (h : c.validate = .ok ()) :
    c.aggregation.validate = .ok () :=
  (c.validate_eq_ok_iff.mp h).1

end Config

namespace Schedule

open Flush Hosts

namespace DirectoryRun

inductive Use where
  | apply (host : String) (tags : Tags) (now : Nat)
  | settle (now : Nat)

def uses (r : DirectoryRun) : List Use → DirectoryRun
  | [] => r
  | .apply host tags now :: rest => (r.apply host tags now).1.uses rest
  | .settle now :: rest => (Timed.settle now r).uses rest

structure Idle (r : DirectoryRun) : Prop where
  stopped : r.directory.runs = false
  entries : r.directory.cache.entries = []

theorem Idle.start {settings : Config.Cloud} (h : settings.refresh = 0) (source : HostScript)
    (now : Nat) : (DirectoryRun.start settings source now).Idle where
  stopped := by simp [DirectoryRun.start, Directory.start, Directory.runs, h]
  entries := rfl

theorem Idle.settle {r : DirectoryRun} (h : r.Idle) (now : Nat) : Timed.settle now r = r := by
  have hstep : r.step? now = none := by simp [step?, h.stopped]
  show steps now (r.stepBound now) r = r
  cases r.stepBound now with
  | zero => rfl
  | succ fuel => simp [steps, hstep]

theorem reserve_keeps (d : Directory) (host : String) :
    (d.reserve host).1.runs = d.runs ∧ (d.reserve host).1.cache = d.cache := by
  unfold Directory.reserve
  split
  · exact ⟨rfl, rfl⟩
  · split <;> exact ⟨rfl, rfl⟩

theorem request_keeps (d : Directory) (host : String) :
    (d.request host).1.runs = d.runs ∧ (d.request host).1.cache = d.cache := by
  have hkeeps := reserve_keeps d host
  unfold Directory.request
  split
  · rename_i hreserve
    rw [hreserve] at hkeeps
    exact ⟨(Mailbox.isOpen_send _ host).trans hkeeps.1, hkeeps.2⟩
  all_goals
    rename_i hreserve
    rw [hreserve] at hkeeps
    exact hkeeps

theorem Idle.apply {r : DirectoryRun} (h : r.Idle) (host : String) (tags : Tags) (now : Nat) :
    (r.apply host tags now).2 = (.miss, tags) ∧ (r.apply host tags now).1.Idle := by
  have hfind : r.directory.cache.find? host = none := by
    rw [Cache.find?, h.entries]
    rfl
  have happly : r.directory.cache.apply host tags now = (r.directory.cache, ⟨.miss, tags, true⟩) := by
    rw [Cache.apply, hfind]
  have hkeeps := request_keeps r.directory host
  simp only [DirectoryRun.apply, Directory.apply, happly, if_true]
  exact ⟨trivial, by rw [hkeeps.1]; exact h.stopped, by rw [hkeeps.2]; exact h.entries⟩

theorem Idle.uses {r : DirectoryRun} (h : r.Idle) (moves : List Use) : (r.uses moves).Idle := by
  induction moves generalizing r with
  | nil => exact h
  | cons u rest ih =>
    cases u with
    | apply host tags now => exact ih (h.apply host tags now).2
    | settle now => exact ih ((h.settle now).symm ▸ h)

end DirectoryRun

-- The periods and sizes that the daemon begins with are those that it can work with.
structure Workable (c : Config) (run : PipelineRun) : Prop where
  flush : run.ticker.period ≠ 0
  workers : ∀ w ∈ run.pool.workers, w.ticker.period ≠ 0
  hosts : ∀ directory ∈ run.pool.intake.delivery.hosts, directory.ticker.period ≠ 0
  datagrams : Receiver.bufferSize c.receiver.maxPacketSize < wordLimit
  tags : c.rules.tagCapacity < wordLimit

structure Unchecked (c : Config) : Prop where
  refresh : ∀ cloud ∈ c.cloud, cloud.refresh ≠ 0
  maxPacketSize : c.receiver.maxPacketSize + 1 < wordLimit
  estimatedTags : c.rules.estimatedTags + c.rules.defaultTags.length + 1 < wordLimit

theorem period_hosts_start (c : Config) (backends : List Backend) (hosts : Option HostScript)
    (now : Nat) :
    (∀ directory ∈ (PipelineRun.start c backends hosts now).pool.intake.delivery.hosts,
      directory.ticker.period ≠ 0) ↔ ∀ cloud ∈ c.cloud, cloud.refresh ≠ 0 := by
  have hstart : (PipelineRun.start c backends hosts now).pool.intake.delivery.hosts =
      c.cloud.map fun cloud => Directory.start cloud now := rfl
  rw [hstart]
  cases c.cloud with
  | none => simp
  | some cloud =>
    have hperiod : (Directory.start cloud now).ticker.period = cloud.refresh * 1000 := rfl
    simp only [Option.map_some, Option.mem_some_iff, forall_eq', hperiod]
    omega

theorem bufferSize_lt_iff (maxSize : Nat) :
    Receiver.bufferSize maxSize < wordLimit ↔ maxSize + 1 < wordLimit := by
  unfold Receiver.bufferSize wordLimit
  omega

theorem workable_iff (c : Config) (h : c.validate = .ok ()) (backends : List Backend)
    (hosts : Option HostScript) (now : Nat) :
    Workable c (PipelineRun.start c backends hosts now) ↔ Unchecked c := by
  constructor
  · intro hworkable
    exact
      { refresh := (period_hosts_start c backends hosts now).mp hworkable.hosts
        maxPacketSize := (bufferSize_lt_iff _).mp hworkable.datagrams
        estimatedTags := hworkable.tags }
  · intro hunchecked
    have hworker : ∀ w ∈ (PipelineRun.start c backends hosts now).pool.workers,
        w.ticker.period = c.aggregation.checkInterval := by
      intro w hw
      rw [List.eq_of_mem_replicate hw]
      rfl
    exact
      { flush := ((Config.Aggregation.validate_eq_ok_iff _).mp (Config.aggregation_validate h)).2.1
        workers := fun w hw => (hworker w hw).symm ▸ c.aggregation.checkInterval_ne
        hosts := (period_hosts_start c backends hosts now).mpr hunchecked.refresh
        datagrams := (bufferSize_lt_iff _).mpr hunchecked.maxPacketSize
        tags := hunchecked.estimatedTags }

def renewed : Config :=
  { Config.default 2 with
    cloud := some { source := .static [("10.0.0.1", ["env:prod"])], refresh := 60 } }

theorem renewed_workable :
    renewed.validate = .ok () ∧ Workable renewed (PipelineRun.start renewed [] none 0) := by
  have hchecked : renewed.validate = .ok () := by rfl
  refine ⟨hchecked, (workable_iff renewed hchecked [] none 0).mpr ⟨?_, by decide, by decide⟩⟩
  intro cloud hcloud
  cases hcloud
  decide

-- Tags of hosts that are kept for no time. The check accepts it, but the directory never
-- runs, and the host of the table is not found however long one waits.
def unrenewed : Config :=
  { renewed with
    cloud := some { source := .static [("10.0.0.1", ["env:prod"])], refresh := 0 } }

theorem unrenewed_unworkable :
    unrenewed.validate = .ok () ∧
      ¬ Workable unrenewed (PipelineRun.start unrenewed [] none 0) ∧
      ∀ cloud ∈ unrenewed.cloud, ∀ moves tags now,
        (((DirectoryRun.start cloud (.ofSource cloud.source) 0).uses moves).apply
          "10.0.0.1" tags now).2 = (.miss, tags) := by
  refine ⟨rfl, fun h => ?_, fun cloud hcloud moves tags now => ?_⟩
  · exact h.hosts _ rfl rfl
  · cases hcloud
    exact (((DirectoryRun.Idle.start rfl _ 0).uses moves).apply "10.0.0.1" tags now).1

end Schedule

end StatsDaemon
