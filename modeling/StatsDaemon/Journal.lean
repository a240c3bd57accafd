import StatsDaemon.Logging
import StatsDaemon.Telemetry.Client

namespace StatsDaemon

structure Journal where
  log : List Logging.Entry := []
  measurements : List Telemetry.Measurement := []
  deriving DecidableEq

namespace Journal

def append (j k : Journal) : Journal :=
  ⟨j.log ++ k.log, j.measurements ++ k.measurements⟩

instance : Append Journal := ⟨append⟩

theorem append_def (j k : Journal) : j ++ k = ⟨j.log ++ k.log, j.measurements ++ k.measurements⟩ :=
  rfl

@[simp] theorem append_empty (j : Journal) : j ++ ({} : Journal) = j := by
  simp [append_def]

def entry (e : Logging.Entry) : Journal :=
  { log := [e] }

def measured (measurements : List Telemetry.Measurement) : Journal :=
  { measurements }

def concat (js : List Journal) : Journal :=
  ⟨js.flatMap log, js.flatMap measurements⟩

end Journal

end StatsDaemon
