import StatsDaemon.Proofs.Config.Sections
import StatsDaemon.Proofs.Yaml.Trees

namespace StatsDaemon

open Document

namespace Config

def naturals (c : Config) : List ℕ :=
  c.receiver.naturals ++ [c.rules.badLinesPerMinute, c.rules.estimatedTags] ++
    c.aggregation.naturals ++ c.cloud.toList.flatMap Cloud.naturals ++ [c.internal.queueSize] ++
      c.limits.naturals

-- Settings as the types of their fields allow them.
structure WellTyped (c : Config) : Prop where
  words : ∀ n ∈ c.naturals, n < 2 ^ 64
  badLines : c.rules.badLinesPerMinute < 2 ^ 32
  bind : Net.SocketAddress.parse? c.receiver.bind.text = some c.receiver.bind
  backends : ∀ b ∈ c.backends, b.Named
  cloud : ∀ cloud ∈ c.cloud, cloud.source.Named

theorem ofDocument?_toJson {δ : Type} [Document δ] {tree : Json → δ} (h : Stands tree) {c : Config}
    (hvalid : c.validate = .ok ()) (hc : c.WellTyped) (processors : ℕ) :
    ofDocument? processors (tree c.toJson) = some c := by
  obtain ⟨haggregation, -, -, -, hrate, hrate'⟩ := c.validate_eq_ok_iff.mp hvalid
  have hrecord := h.record c.toJson fieldNames
    [some c.receiver.toJson, some c.rules.toJson, some c.aggregation.toJson,
      some (.arr (c.backends.map Backend.toJson)), c.cloud.map Cloud.toJson,
      some c.internal.toJson, some c.limits.toJson, some c.log.toJson] (by decide) rfl
    (by unfold toJson; cases c.cloud <;> rfl)
  have hwords := hc.words
  simp only [naturals, List.forall_mem_append, List.forall_mem_cons] at hwords
  obtain ⟨⟨⟨⟨⟨hreceiver, -, htags, -⟩, hworkers⟩, hclouds⟩, hqueue, -⟩, hlimits⟩ := hwords
  have hrateFinite : c.internal.sampleRate.isFinite = true :=
    Binary64.isFinite_of_between hrate hrate'
  have hbackends : list? Backend.ofDocument? (tree (.arr (c.backends.map Backend.toJson))) =
      some c.backends :=
    h.list fun b hb => Backend.ofDocument?_toJson h (hc.backends b hb)
  have hcloud : Document.optional Cloud.ofDocument? ((c.cloud.map Cloud.toJson).map tree) =
      some c.cloud := by
    rw [Option.map_map]
    refine optional_map fun cloud hsection => ⟨h.absent_record _, ?_⟩
    have hnaturals : ∀ n ∈ cloud.naturals, n < 2 ^ 64 := fun n hn =>
      hclouds n (List.mem_flatMap.mpr ⟨cloud, Option.mem_toList.mpr hsection, hn⟩)
    exact Cloud.ofDocument?_toJson h hnaturals (hc.cloud cloud hsection)
  rw [ofDocument?, hrecord, Option.bind_eq_bind, Option.bind_some]
  simp only [List.map_cons, List.map_nil, Option.map_some, orElse,
    Receiver.ofDocument?_toJson h hreceiver hc.bind, Line.Rules.ofDocument?_toJson h hc.badLines htags,
    Aggregation.ofDocument?_toJson h hworkers (Aggregation.isFinite_of_validate haggregation),
    hbackends, hcloud, Internal.ofDocument?_toJson h hrateFinite hqueue,
    Limits.ofDocument?_toJson h hlimits, Log.ofDocument?_toJson h]
  rfl

end Config

-- The settings that are loaded from the tree of the dumped ones are these again: from YAML, where
-- scalars are texts, as from JSON.
theorem dumped_config_loads {c : Config} (hvalid : c.validate = .ok ()) (hc : c.WellTyped)
    (processors : ℕ) :
    Config.ofDocument? processors (Yaml.ofJson c.toJson) = some c ∧
      Config.ofDocument? processors c.toJson = some c := by
  constructor
  · exact Config.ofDocument?_toJson Yaml.stands_ofJson hvalid hc processors
  · exact Config.ofDocument?_toJson stands_json hvalid hc processors

def furnished : Config where
  receiver :=
    { mode := .tcp, bind := { ip := .v6 [0, 0, 0, 0, 0, 0, 0, 1], port := 9125 }, maxReaders := 2,
      socketPerReader := true, maxParsers := 3 }
  rules := { scope := some "null", defaultTags := ["env:prod", "", "- x"], badLinesPerMinute := 7 }
  aggregation :=
    { workers := 4, percentiles := [90, 1 / 2], expiryCounter := some 0,
      disabled := { sum := true, meanPct := true } }
  backends :=
    [.stdout none, .stdout (some "/var/log/lines"),
      .graphite { address := { ip := .v4 [10, 0, 0, 7], port := 2003 }, tagStyle := .none },
      .http ⟨"http", some "collector:8080", "/batches", none, none⟩ true, .blackhole]
  cloud := some { source := .static [("0x1F", []), ("10.0.0.1", ["role:db"])], refresh := 1 }
  internal := { sink := .null, hostname := some "true", heartbeat := true, sampleRate := 1 / 2 }
  limits := { maxThreads := 6 }
  log := { level := .off, format := .json, backtraces := true }

theorem furnished_loads :
    (furnished.validate = .ok () ∧ furnished.WellTyped) ∧
      Config.ofDocument? 16 (Yaml.ofJson furnished.toJson) = some furnished ∧
      Config.ofDocument? 16 furnished.toJson = some furnished := by
  have hvalid : furnished.validate = .ok () := by rfl
  have hc : furnished.WellTyped :=
    { words := by decide
      badLines := by decide
      bind := by decide +kernel
      backends := by
        intro b hb
        simp only [furnished, List.mem_cons, List.not_mem_nil, or_false] at hb
        rcases hb with rfl | rfl | rfl | rfl | rfl
        · trivial
        · trivial
        · show Net.SocketAddress.parse? _ = _
          decide +kernel
        · show Net.Url.parse? _ = _
          decide +kernel
        · trivial
      cloud := by
        intro cloud hcloud
        obtain rfl := Option.some.inj hcloud
        show List.Pairwise _ _
        decide }
  exact ⟨⟨hvalid, hc⟩, dumped_config_loads hvalid hc 16⟩

end StatsDaemon
