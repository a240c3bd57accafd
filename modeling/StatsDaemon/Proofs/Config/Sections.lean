import StatsDaemon.Config
import StatsDaemon.Proofs.Binary64.Packing
import StatsDaemon.Proofs.Document

namespace StatsDaemon

open Document

theorem Document.Stands.socket {δ : Type} [Document δ] {tree : Json → δ} (h : Stands tree)
    {a : Net.SocketAddress} (ha : Net.SocketAddress.parse? a.text = some a) :
    socket? (tree (.str a.text)) = some a := by
  rw [socket?, h.text, Option.bind_some, ha]

theorem Document.Stands.url {δ : Type} [Document δ] {tree : Json → δ} (h : Stands tree)
    {u : Net.Url} (hu : Net.Url.parse? u.text = some u) : url? (tree (.str u.text)) = some u := by
  rw [url?, h.text, Option.bind_some, hu]

namespace Config

def Receiver.naturals (r : Receiver) : List ℕ :=
  [r.maxReaders, r.batchSize, r.maxPacketSize, r.maxLineLength, r.maxParsers, r.parserQueueSize]

def Aggregation.naturals (a : Aggregation) : List ℕ :=
  [a.workers, a.queueSize, a.maxEvents, a.flushInterval, a.flushTimeout, a.expiry, a.scanChunk] ++
    a.expiryCounter.toList ++ a.expiryGauge.toList ++ a.expirySet.toList ++ a.expiryTimer.toList ++
      a.expiryCheck.toList

def Cloud.naturals (c : Cloud) : List ℕ :=
  [c.refresh, c.negativeLifetime, c.evict, c.maxConcurrentLookups, c.maxPendingLookups,
    c.lookupTimeout]

def Limits.naturals (l : Limits) : List ℕ :=
  [l.shutdownTimeout, l.maxThreads, l.backendTimeout]

def Backend.Named : Backend → Prop
  | .graphite target => Net.SocketAddress.parse? target.address.text = some target.address
  | .http url _ => Net.Url.parse? url.text = some url
  | .stdout _ | .blackhole => True

def HostSource.Named : HostSource → Prop
  | .static hosts => hosts.Pairwise (·.1 < ·.1)
  | .http url => Net.Url.parse? url.text = some url

theorem Aggregation.isFinite_of_validate {a : Aggregation} (ha : a.validate = .ok ()) :
    ∀ x ∈ a.percentiles, x.isFinite = true := by
  intro x hx
  have hpercentile := (a.validate_eq_ok_iff.mp ha).2.2 x hx
  simp only [isPercentile, Bool.and_eq_true] at hpercentile
  exact hpercentile.1.1

namespace HostSource

theorem insertHost_of_lt {host : String} (tags : List String) {table : List (String × List String)}
    (h : ∀ entry ∈ table, entry.1 < host) : insertHost host tags table = table ++ [(host, tags)] := by
  induction table with
  | nil => rfl
  | cons entry rest ih =>
    obtain ⟨hfirst, hrest⟩ := List.forall_mem_cons.mp h
    have hne : host ≠ entry.1 := by
      intro heq
      rw [heq] at hfirst
      exact String.lt_irrefl _ hfirst
    rw [insertHost, if_neg (String.lt_asymm hfirst), if_neg hne, ih hrest]
    rfl

-- Hosts that come in their order are entered one behind the other.
theorem foldl_insertHost (table hosts : List (String × List String))
    (h : (table ++ hosts).Pairwise (·.1 < ·.1)) :
    hosts.foldl (fun table (host, tags) => insertHost host tags table) table = table ++ hosts := by
  induction hosts generalizing table with
  | nil => simp
  | cons entry hosts ih =>
    obtain ⟨host, tags⟩ := entry
    have hentry : insertHost host tags table = table ++ [(host, tags)] :=
      insertHost_of_lt tags fun other hother =>
        (List.pairwise_append.mp h).2.2 other hother (host, tags) List.mem_cons_self
    show hosts.foldl _ (insertHost host tags table) = _
    rw [List.append_cons] at h ⊢
    rw [hentry, ih _ h]

theorem hosts?_obj {hosts : List (String × List String)} (h : hosts.Pairwise (·.1 < ·.1)) :
    hosts? (.obj (hosts.map fun (host, tags) => (host, .strings tags))) = some hosts := by
  show Option.bind (List.mapM _ (hosts.map _)) _ = _
  rw [mapM_map, Option.bind_some, foldl_insertHost [] hosts h, List.nil_append]
  rintro ⟨host, tags⟩ -
  have htexts : texts? (Json.strings tags) = some tags := stands_json.texts tags
  exact congrArg (Option.map (host, ·)) htexts

end HostSource

theorem GraphiteTarget.ofJson?_fields {t : GraphiteTarget}
    (ht : Net.SocketAddress.parse? t.address.text = some t.address) :
    ofJson? (.obj t.fields) = some t := by
  have hrecord : record? fieldNames (Json.obj t.fields) =
      some [some (.str t.address.text), some (.str t.prefixes.counter),
        some (.str t.prefixes.gauge), some (.str t.prefixes.set), some (.str t.prefixes.timer),
        some (.str t.prefixes.global), some (.str t.tagStyle.name)] :=
    record?_obj (by decide) rfl rfl
  have haddress : socket? (Json.str t.address.text) = some t.address := stands_json.socket ht
  have hstyle : choose? Graphite.TagStyle.ofName? (Json.str t.tagStyle.name) = some t.tagStyle :=
    t.tagStyle.ofName_name
  rw [ofJson?, hrecord, Option.bind_eq_bind, Option.bind_some]
  simp only [required, orElse, haddress, hstyle]
  rfl

theorem GraphiteTarget.literal_fields (t : GraphiteTarget) :
    (∀ field ∈ t.fields, field.1 ≠ "type") ∧ ∀ field ∈ t.fields, Literal field.2 := by
  constructor
  · simp [fields]
  · simp only [fields, List.forall_mem_cons]
    exact ⟨.str _, .str _, .str _, .str _, .str _, .str _, .str _, List.forall_mem_nil _⟩

end Config

section

variable {δ : Type} [Document δ] {tree : Json → δ} (h : Stands tree)

include h

theorem Document.Stands.optionalNat {n : Option ℕ} (hn : ∀ k ∈ n, k < 2 ^ 64) :
    optional natural? (some (tree (Config.Aggregation.optionalNat n))) = some n := by
  cases n with
  | none => exact if_pos h.absent_null
  | some n => exact optional_some (h.absent_natural n) (h.natural (hn n rfl))

theorem Config.Receiver.ofDocument?_toJson {r : Receiver}
    (hwords : ∀ n ∈ r.naturals, n < 2 ^ 64)
    (hbind : Net.SocketAddress.parse? r.bind.text = some r.bind) (processors : ℕ) :
    ofDocument? processors (tree r.toJson) = some r := by
  have hrecord := h.record r.toJson fieldNames
    [some (.str r.mode.name), some (.str r.bind.text), some (.ofNat r.maxReaders),
      some (.ofNat r.batchSize), some (.bool r.socketPerReader), some (.ofNat r.maxPacketSize),
      some (.ofNat r.maxLineLength), some (.ofNat r.maxParsers), some (.ofNat r.parserQueueSize)]
    (by decide) rfl rfl
  simp only [naturals, List.forall_mem_cons] at hwords
  obtain ⟨hreaders, hbatch, hpacket, hline, hparsers, hqueue, -⟩ := hwords
  rw [ofDocument?, hrecord, Option.bind_eq_bind, Option.bind_some]
  simp only [List.map_cons, List.map_nil, Option.map_some, orElse, h.choose r.mode.ofName_name,
    h.socket hbind, h.natural hreaders, h.natural hbatch, h.flag, h.natural hpacket,
    h.natural hline, h.natural hparsers, h.natural hqueue]
  rfl

theorem Line.Rules.ofDocument?_toJson {r : Line.Rules} (hlines : r.badLinesPerMinute < 2 ^ 32)
    (htags : r.estimatedTags < 2 ^ 64) : ofDocument? (tree r.toJson) = some r := by
  have hrecord := h.record r.toJson fieldNames
    [some (.ofString? r.scope), some (.strings r.defaultTags), some (.bool r.ignoreHost),
      some (.ofNat r.badLinesPerMinute), some (.bool r.logMetrics), some (.ofNat r.estimatedTags)]
    (by decide) rfl rfl
  have hupTo : naturalUpTo? 0xffffffff (tree (.ofNat r.badLinesPerMinute)) =
      some r.badLinesPerMinute := by
    rw [naturalUpTo?, h.natural (by omega), Option.bind_eq_bind, Option.bind_some,
      if_pos (by omega)]
  rw [ofDocument?, hrecord, Option.bind_eq_bind, Option.bind_some]
  simp only [List.map_cons, List.map_nil, Option.map_some, orElse, h.optionalText, h.texts, h.flag,
    hupTo, h.natural htags]
  rfl

theorem DisabledFigures.ofDocument?_toJson (d : DisabledFigures) :
    ofDocument? (tree d.toJson) = some d := by
  have hrecord := h.record d.toJson fieldNames
    (d.toList.map fun b => some (Json.bool b)) (by decide) rfl rfl
  have hflags : (d.toList.map fun b => some (tree (Json.bool b))).mapM (orElse false flag?) =
      some d.toList :=
    mapM_map fun b _ => h.flag b
  rw [ofDocument?, hrecord, Option.bind_eq_bind, Option.bind_some, List.map_map]
  show ((d.toList.map fun b => some (tree (Json.bool b))).mapM (orElse false flag?)).bind ofList? = _
  rw [hflags, Option.bind_some, ofList_toList]

namespace Config

theorem Aggregation.ofDocument?_toJson {a : Aggregation} (hwords : ∀ n ∈ a.naturals, n < 2 ^ 64)
    (hfinite : ∀ x ∈ a.percentiles, x.isFinite = true) (processors : ℕ) :
    ofDocument? processors (tree a.toJson) = some a := by
  have hrecord := h.record a.toJson fieldNames
    [some (.ofNat a.workers), some (.ofNat a.queueSize), some (.ofNat a.maxEvents),
      some (.ofNat a.flushInterval), some (.ofNat a.flushTimeout),
      some (.arr (a.percentiles.map .real)), some (.ofNat a.expiry),
      some (optionalNat a.expiryCounter), some (optionalNat a.expiryGauge),
      some (optionalNat a.expirySet), some (optionalNat a.expiryTimer),
      some (optionalNat a.expiryCheck), some (.ofNat a.scanChunk), some a.disabled.toJson]
    (by decide) rfl rfl
  simp only [naturals, List.forall_mem_append, List.forall_mem_cons, Option.mem_toList] at hwords
  obtain ⟨⟨⟨⟨⟨⟨hworkers, hqueue, hevents, hinterval, htimeout, hexpiry, hchunk, -⟩, hcounter⟩,
    hgauge⟩, hset⟩, htimer⟩, hcheck⟩ := hwords
  have hpercentiles : list? real? (tree (.arr (a.percentiles.map .real))) = some a.percentiles :=
    h.list fun x hx => h.real (hfinite x hx)
  rw [ofDocument?, hrecord, Option.bind_eq_bind, Option.bind_some]
  simp only [List.map_cons, List.map_nil, Option.map_some, orElse, h.natural hworkers,
    h.natural hqueue, h.natural hevents, h.natural hinterval, h.natural htimeout, hpercentiles,
    h.natural hexpiry, h.optionalNat hcounter, h.optionalNat hgauge, h.optionalNat hset,
    h.optionalNat htimer, h.optionalNat hcheck, h.natural hchunk,
    DisabledFigures.ofDocument?_toJson h]
  rfl

theorem Internal.ofDocument?_toJson {i : Internal} (hrate : i.sampleRate.isFinite = true)
    (hqueue : i.queueSize < 2 ^ 64) : ofDocument? (tree i.toJson) = some i := by
  have hrecord := h.record i.toJson fieldNames
    [some (.str i.sink.name), some (.str i.scope), some (.strings i.tags),
      some (.ofString? i.hostname), some (.bool i.heartbeat), some (.real i.sampleRate),
      some (.ofNat i.queueSize)] (by decide) rfl rfl
  rw [ofDocument?, hrecord, Option.bind_eq_bind, Option.bind_some]
  simp only [List.map_cons, List.map_nil, Option.map_some, orElse, h.choose i.sink.ofName_name,
    h.text, h.texts, h.optionalText, h.flag, h.real hrate, h.natural hqueue]
  rfl

theorem Limits.ofDocument?_toJson {l : Limits} (hwords : ∀ n ∈ l.naturals, n < 2 ^ 64)
    (processors : ℕ) : ofDocument? processors (tree l.toJson) = some l := by
  have hrecord := h.record l.toJson fieldNames
    [some (.ofNat l.shutdownTimeout), some (.ofNat l.maxThreads),
      some (.ofNat l.backendTimeout)] (by decide) rfl rfl
  simp only [naturals, List.forall_mem_cons] at hwords
  obtain ⟨hshutdown, hthreads, hbackend, -⟩ := hwords
  rw [ofDocument?, hrecord, Option.bind_eq_bind, Option.bind_some]
  simp only [List.map_cons, List.map_nil, Option.map_some, orElse, h.natural hshutdown,
    h.natural hthreads, h.natural hbackend]
  rfl

theorem Log.ofDocument?_toJson (l : Log) : ofDocument? (tree l.toJson) = some l := by
  have hrecord := h.record l.toJson ["level", "format", "enable_backtraces"]
    [some (.str l.level.name), some (.str l.format.name), some (.bool l.backtraces)]
    (by decide) rfl rfl
  rw [ofDocument?, hrecord, Option.bind_eq_bind, Option.bind_some]
  simp only [List.map_cons, List.map_nil, Option.map_some, orElse, h.choose l.level.ofName_name,
    h.choose l.format.ofName_name, h.flag]
  rfl

omit h in
theorem Backend.ofDocument?_of_typed {d : δ} {name : String} {rest : Json}
    (hd : typed? d = some (name, rest)) : ofDocument? d = ofTyped? name rest := by
  rw [ofDocument?, hd]
  rfl

theorem Backend.ofDocument?_toJson {b : Backend} (hb : b.Named) :
    ofDocument? (tree b.toJson) = some b := by
  cases b with
  | stdout path =>
    have hliteral : (∀ field ∈ (path.elim [] fun p => [("path", Json.str p)]), field.1 ≠ "type") ∧
        ∀ field ∈ (path.elim [] fun p => [("path", Json.str p)]), Literal field.2 := by
      cases path with
      | none => exact ⟨List.forall_mem_nil _, List.forall_mem_nil _⟩
      | some p =>
        exact ⟨List.forall_mem_singleton.mpr (by simp), List.forall_mem_singleton.mpr (.str p)⟩
    rw [toJson, ofDocument?_of_typed (h.typed "stdout" hliteral.1 hliteral.2)]
    cases path <;> rfl
  | graphite target =>
    obtain ⟨hnames, hliteral⟩ := target.literal_fields
    rw [toJson, ofDocument?_of_typed (h.typed "graphite" hnames hliteral)]
    show (GraphiteTarget.ofJson? (.obj target.fields)).map Backend.graphite = _
    rw [GraphiteTarget.ofJson?_fields hb, Option.map_some]
  | http url skipEmpty =>
    rw [Named] at hb
    have hurl : url? (Json.str url.text) = some url := stands_json.url hb
    have hrecord : record? ["url", "skip_empty"]
        (Json.obj [("url", .str url.text), ("skip_empty", .bool skipEmpty)]) =
          some [some (.str url.text), some (.bool skipEmpty)] :=
      record?_obj (by decide) rfl rfl
    have hnames : ∀ field ∈ [("url", Json.str url.text), ("skip_empty", .bool skipEmpty)],
        field.1 ≠ "type" := by
      simp
    have hliteral : ∀ field ∈ [("url", Json.str url.text), ("skip_empty", .bool skipEmpty)],
        Literal field.2 := by
      simp only [List.forall_mem_cons]
      exact ⟨.str _, .bool _, List.forall_mem_nil _⟩
    rw [toJson, ofDocument?_of_typed (h.typed "http" hnames hliteral), ofTyped?, if_neg (by decide),
      if_neg (by decide), if_pos rfl, hrecord, Option.bind_eq_bind, Option.bind_some]
    simp only [required, hurl]
    rfl
  | blackhole =>
    rw [toJson, ofDocument?_of_typed (h.typed "blackhole" (List.forall_mem_nil _)
      (List.forall_mem_nil _))]
    rfl

omit h in
theorem HostSource.ofDocument?_of_typed {d : δ} {name : String} {rest : Json}
    (hd : typed? d = some (name, rest)) : ofDocument? d = ofTyped? name rest := by
  rw [ofDocument?, hd]
  rfl

theorem HostSource.ofDocument?_toJson {s : HostSource} (hs : s.Named) :
    ofDocument? (tree s.toJson) = some s := by
  cases s with
  | static hosts =>
    have hliteral : Literal (.obj (hosts.map fun (host, tags) => (host, .strings tags))) :=
      .obj (List.forall_mem_map.mpr fun entry _ =>
        .arr (List.forall_mem_map.mpr fun s _ => .str s))
    rw [toJson, ofDocument?_of_typed (h.typed "static" (List.forall_mem_singleton.mpr (by simp))
      (List.forall_mem_singleton.mpr hliteral))]
    show (hosts? _).map HostSource.static = _
    rw [hosts?_obj hs, Option.map_some]
  | http url =>
    rw [Named] at hs
    have hurl : url? (Json.str url.text) = some url := stands_json.url hs
    have hrecord : record? ["url"] (Json.obj [("url", .str url.text)]) =
        some [some (.str url.text)] :=
      record?_obj (by decide) rfl rfl
    rw [toJson, ofDocument?_of_typed (h.typed "http" (List.forall_mem_singleton.mpr (by simp))
      (List.forall_mem_singleton.mpr (.str _))), ofTyped?, if_neg (by decide), if_pos rfl, hrecord,
      Option.bind_eq_bind, Option.bind_some]
    simp only [required, hurl, Option.map_some]

theorem Cloud.ofDocument?_toJson {c : Cloud} (hwords : ∀ n ∈ c.naturals, n < 2 ^ 64)
    (hsource : c.source.Named) : ofDocument? (tree c.toJson) = some c := by
  have hrecord := h.record c.toJson fieldNames
    [some c.source.toJson, some (.ofNat c.refresh), some (.ofNat c.negativeLifetime),
      some (.ofNat c.evict), some (.ofNat c.maxConcurrentLookups),
      some (.ofNat c.maxPendingLookups), some (.ofNat c.lookupTimeout)] (by decide) rfl rfl
  simp only [naturals, List.forall_mem_cons] at hwords
  obtain ⟨hrefresh, hnegative, hevict, hconcurrent, hpending, htimeout, -⟩ := hwords
  rw [ofDocument?, hrecord, Option.bind_eq_bind, Option.bind_some]
  simp only [List.map_cons, List.map_nil, Option.map_some, required, orElse,
    HostSource.ofDocument?_toJson h hsource, h.natural hrefresh, h.natural hnegative,
    h.natural hevict, h.natural hconcurrent, h.natural hpending, h.natural htimeout]
  rfl

end Config

end

end StatsDaemon
