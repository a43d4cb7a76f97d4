import SvgdCollect.Layout
import SvgdCollect.Lib.NumberText

/-!
# Load, uptime and temperatures

The kernel counts the load and the uptime in hundredths and temperatures in thousandths of
a degree.  It writes the first two with a point and the last one without.  Whatever it
writes, the readers emit the double nearest to it.
-/

namespace SvgdCollect

open Lib

/-! ## `/proc/loadavg` and `/proc/uptime` -/

/-- A number of hundredths, and a space behind it. -/
def hundredths (n : Nat) (rest : Bytes) : Bytes := placesText 2 n ++ 32 :: rest

/-- `"%lu.%02lu %lu.%02lu %lu.%02lu"` and further fields. -/
def loadavgText (one five fifteen : Nat) (fields : Bytes) : Bytes :=
  hundredths one (hundredths five (hundredths fifteen fields))

theorem endsNumber_space (rest : Bytes) : EndsNumber (32 :: rest) := by
  intro b hb
  obtain rfl := Option.some.inj hb
  decide

theorem dropWhile_hundredths (n : Nat) (rest : Bytes) :
    (hundredths n rest).dropWhile isspace = hundredths n rest := by
  rw [hundredths, placesText, List.append_assoc]
  exact dropWhile_isspace_word (isWord_decimal _) _

/-- Both with and without a space in front. -/
theorem sscanf_hundredths (ds : List Directive) (n : Nat) (rest : Bytes) :
    sscanf (.float :: ds) (hundredths n rest) =
        .real (.rat (n / 100)) :: sscanf ds (32 :: rest) ∧
      sscanf (.space :: .float :: ds) (32 :: hundredths n rest) =
        .real (.rat (n / 100)) :: sscanf ds (32 :: rest) := by
  have hScan : scanFloat (hundredths n rest) = some (.rat (n / 100), 32 :: rest) := by
    have hPlaces := @scanFloat_placesText 2 (by decide) n (32 :: rest) (endsNumber_space rest)
    norm_num at hPlaces
    exact hPlaces
  have hFloat : sscanf (.float :: ds) (hundredths n rest) =
      .real (.rat (n / 100)) :: sscanf ds (32 :: rest) := by
    rw [sscanf, dropWhile_hundredths, hScan]
  refine ⟨hFloat, ?_⟩
  have hBlank : (32 :: hundredths n rest).dropWhile isspace = hundredths n rest := by
    rw [List.dropWhile_cons, if_pos (by decide), dropWhile_hundredths]
  rw [sscanf, hBlank, hFloat]

section Generic

variable {D : Type} [CDouble D] {src : Sources} {base : Bytes}

theorem loadRead_text {one five fifteen : Nat} {fields : Bytes}
    (hFile : src.file (procPath base "/loadavg") = some (loadavgText one five fifteen fields)) :
    (loadRead src base : ReadResult D).metrics.map Metric.values =
      [[CDouble.ofRat (one / 100), CDouble.ofRat (five / 100), CDouble.ofRat (fifteen / 100)]] := by
  have hScan : reals (sscanf [.float, .space, .float, .space, .float]
      (loadavgText one five fifteen fields)) =
        [.rat (one / 100), .rat (five / 100), .rat (fifteen / 100)] := by
    rw [loadavgText, (sscanf_hundredths _ _ _).1, (sscanf_hundredths _ _ _).2,
      (sscanf_hundredths _ _ _).2]
    rfl
  rw [loadRead, hFile]
  simp only [hScan]
  rfl

theorem uptimeRead_text {up : Nat} {fields : Bytes}
    (hFile : src.file (procPath base "/uptime") = some (hundredths up fields)) :
    (uptimeRead src base : ReadResult D).metrics.map Metric.values =
      [[CDouble.ofRat (up / 100)]] := by
  have hScan : reals (sscanf [.float] (hundredths up fields)) = [.rat (up / 100)] := by
    rw [(sscanf_hundredths _ _ _).1]
    rfl
  rw [uptimeRead, hFile]
  simp only [hScan]
  rfl

end Generic

/-! ## Thermal zones -/

/-- What a zone reports: millidegrees, and a type, which is a line of its own. -/
structure Sensor where
  millideg : Int
  type : Bytes
  range : |millideg| < 2 ^ 31
  type_ne : type ≠ []
  type_clean : ∀ b ∈ type, b ≠ newline ∧ b ≠ 0
  type_end : stripEol type = type
  type_length : type.length < 63

/-- A file of a zone under its full name. -/
def zoneFile (zone : Bytes) (name : String) : Bytes :=
  ascii "/sys/class/thermal/" ++ (zone ++ byte '/' :: ascii name)

/-- The two files of a zone, or none if it reports nothing. -/
structure HasSensor (src : Sources) (zone : Bytes) (sensor : Option Sensor) : Prop where
  temp : src.file (zoneFile zone "temp") =
    sensor.map fun s => decimalInt s.millideg ++ [newline]
  type : ∀ s ∈ sensor, src.file (zoneFile zone "type") = some (s.type ++ [newline])

theorem thermalPath_eq {zone : Bytes} (hName : IsFileName zone) {name : String}
    (hShort : (ascii name).length ≤ 100) :
    thermalPath (thermalBase procBase) zone name = zoneFile zone name := by
  have hBase : thermalBase procBase = ascii "/sys" := by decide
  have hFront : ascii "/sys" ++ ascii "/class/thermal/" = ascii "/sys/class/thermal/" := by decide
  have hLength := hName.length
  rw [thermalPath, hBase, ← List.append_assoc, hFront, zoneFile]
  apply snprintf_of_lt
  have hSys : (ascii "/sys/class/thermal/").length = 19 := by decide
  simp only [List.length_append, List.length_cons, hSys]
  omega

/-- Degrees. -/
def sensorMetric (zone : Bytes) (s : Sensor) : Metric Double :=
  { plugin := ascii "thermal", pluginInstance := some zone, type := ascii "temperature"
    typeInstance := some s.type, dsCount := 1
    values := [.ofRat (s.millideg / 1000)] }

theorem millidegrees_nearest {t : ℤ} (h : |t| < 2 ^ 31) :
    (CDouble.div (CDouble.ofInt t) (CDouble.ofInt 1000) : Double) = .ofRat (t / 1000) := by
  rw [Double.ofInt_of_abs_lt (h.trans (by norm_num)), Double.ofInt_of_abs_lt (by norm_num)]
  show Double.div (.finite t) (.finite ((1000 : ℤ) : ℚ)) = _
  rw [Int.cast_ofNat, Double.div, if_neg (by norm_num)]

theorem nums_millideg {t : ℤ} (h : |t| < 2 ^ 31) :
    nums (sscanf [.int true] (decimalInt t ++ [newline])) = [t] := by
  have hRest : ∀ b, [newline].head? = some b → isdigit b = false := by
    rintro b ⟨⟩
    rfl
  have hClamp : clampLong t = t := by
    rw [abs_lt] at h
    unfold clampLong
    omega
  rw [sscanf, dropWhile_isspace_word (isWord_decimalInt t), scanSigned_decimalInt _ hRest]
  show [clampLong t] = [t]
  rw [hClamp]

theorem thermalZone_sensor {src : Sources} {zone : Bytes} {sensor : Option Sensor}
    (hName : IsFileName zone) (hSensor : HasSensor src zone sensor) :
    (thermalZone src (thermalBase procBase) zone : Option (Metric Double)) =
      if ascii "thermal_zone" <+: zone then sensor.map (sensorMetric zone) else none := by
  by_cases hZone : ascii "thermal_zone" <+: zone
  · rw [thermalZone, if_neg (not_not.mpr hZone), if_pos hZone,
      thermalPath_eq hName (by decide), thermalPath_eq hName (by decide), hSensor.temp]
    cases sensor with
    | none => rfl
    | some s =>
        have hType : firstText 64 (some (s.type ++ [newline])) = s.type :=
          firstText_line [] (fun h => (s.type_clean _ h).1 rfl) (fun h => (s.type_clean _ h).2 rfl)
            s.type_end (by have := s.type_length; omega)
        simp only [Option.map_some, nums_millideg s.range, hSensor.type s rfl, hType,
          millidegrees_nearest s.range, if_pos s.type_ne, sensorMetric]
  · rw [thermalZone, if_pos hZone, if_neg hZone]

/-- **Readings are emitted as they are.**  Whatever hundredths the kernel writes to
`loadavg` and `uptime` and whatever else follows, `load` and `uptime` emit the doubles
nearest to them.  `thermal` emits one metric for each zone that reports, in the order of the
directory and under the type of its zone, with the double nearest to the degrees; other
entries of the directory are passed over. -/
theorem readings_are_nearest {src : Sources} :
    (∀ one five fifteen fields,
      src.file (procPath procBase "/loadavg") = some (loadavgText one five fifteen fields) →
        (loadRead src procBase : ReadResult Double).metrics.map Metric.values =
          [[.ofRat (one / 100), .ofRat (five / 100), .ofRat (fifteen / 100)]]) ∧
      (∀ up fields, src.file (procPath procBase "/uptime") = some (hundredths up fields) →
        (uptimeRead src procBase : ReadResult Double).metrics.map Metric.values =
          [[.ofRat (up / 100)]]) ∧
      ∀ names (sensors : Bytes → Option Sensor), src.dir thermalDir = some names →
        (∀ zone ∈ names, ascii "thermal_zone" <+: zone → HasSensor src zone (sensors zone)) →
          (thermalRead src procBase : ReadResult Double) = .ok (names.filterMap fun zone =>
            if ascii "thermal_zone" <+: zone then (sensors zone).map (sensorMetric zone)
            else none) := by
  refine ⟨fun one five fifteen fields => loadRead_text, fun up fields => uptimeRead_text, ?_⟩
  intro names sensors hDir hSensors
  have hRead : (thermalRead src procBase : ReadResult Double) =
      .ok (names.filterMap (thermalZone src (thermalBase procBase))) := by
    rw [thermalRead]
    have hPath : procPath (thermalBase procBase) "/class/thermal" = thermalDir := rfl
    simp only [hPath, hDir]
  rw [hRead]
  congr 1
  refine List.filterMap_congr fun zone hMem => ?_
  by_cases hZone : ascii "thermal_zone" <+: zone
  · exact thermalZone_sensor (src.isFileName _ _ hDir zone hMem) (hSensors zone hMem hZone)
  · rw [thermalZone, if_pos hZone, if_neg hZone]

def packageSensor : Sensor where
  millideg := 47250
  type := ascii "x86_pkg_temp"
  range := by norm_num
  type_ne := by decide
  type_clean := by decide
  type_end := by decide
  type_length := by decide

def packageZone : Bytes := ascii "thermal_zone0"

/-- A laptop with one thermal zone and one fan. -/
def laptopSources : Sources where
  file path :=
    if path = procPath procBase "/loadavg" then
      some (loadavgText 152 98 1205 (ascii "1/213 4711"))
    else if path = procPath procBase "/uptime" then some (hundredths 35073525 (ascii "99.10"))
    else if path = zoneFile packageZone "temp" then
      some (decimalInt packageSensor.millideg ++ [newline])
    else if path = zoneFile packageZone "type" then some (packageSensor.type ++ [newline])
    else none
  dir path :=
    if path = thermalDir then some [ascii "cooling_device0", packageZone] else none
  statvfs _ := none
  pageSize := 4096
  isFileName := by
    intro path names hDir name hName
    have hNames : names = [ascii "cooling_device0", packageZone] := by
      split at hDir
      · exact (Option.some.inj hDir).symm
      · cases hDir
    have hBoth : ∀ name ∈ [ascii "cooling_device0", packageZone], IsFileName name := by decide
    exact hBoth name (hNames ▸ hName)

theorem packageZone_hasSensor : HasSensor laptopSources packageZone (some packageSensor) where
  temp := by
    have hLoad : zoneFile packageZone "temp" ≠ procPath procBase "/loadavg" := by decide
    have hUptime : zoneFile packageZone "temp" ≠ procPath procBase "/uptime" := by decide
    simp only [laptopSources, if_neg hLoad, if_neg hUptime, if_true, Option.map_some]
  type := by
    rintro s ⟨⟩
    have hLoad : zoneFile packageZone "type" ≠ procPath procBase "/loadavg" := by decide
    have hUptime : zoneFile packageZone "type" ≠ procPath procBase "/uptime" := by decide
    have hTemp : zoneFile packageZone "type" ≠ zoneFile packageZone "temp" := by decide
    simp only [laptopSources, if_neg hLoad, if_neg hUptime, if_neg hTemp, if_true]

theorem laptop_readings_are_nearest :
    (loadRead laptopSources procBase : ReadResult Double).metrics.map Metric.values =
        [[.ofRat ((152 : ℕ) / 100), .ofRat ((98 : ℕ) / 100), .ofRat ((1205 : ℕ) / 100)]] ∧
      (uptimeRead laptopSources procBase : ReadResult Double).metrics.map Metric.values =
        [[.ofRat ((35073525 : ℕ) / 100)]] ∧
      (thermalRead laptopSources procBase : ReadResult Double) =
        .ok [sensorMetric packageZone packageSensor] := by
  obtain ⟨hLoad, hUptime, hThermal⟩ := @readings_are_nearest laptopSources
  have hOther : procPath procBase "/uptime" ≠ procPath procBase "/loadavg" := by decide
  refine ⟨hLoad 152 98 1205 (ascii "1/213 4711") ?_, hUptime 35073525 (ascii "99.10") ?_, ?_⟩
  · simp only [laptopSources, if_true]
  · simp only [laptopSources, if_neg hOther, if_true]
  · have hDir : laptopSources.dir thermalDir = some [ascii "cooling_device0", packageZone] := by
      simp only [laptopSources, if_true]
    refine hThermal _ (fun _ => some packageSensor) hDir ?_
    intro zone hZone hPrefix
    rcases List.mem_cons.mp hZone with rfl | hZone
    · exact absurd hPrefix (by decide)
    · rw [List.mem_singleton.mp hZone]
      exact packageZone_hasSensor

end SvgdCollect
