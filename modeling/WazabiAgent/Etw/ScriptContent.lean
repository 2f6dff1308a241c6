import WazabiAgent.Lib.Json
import WazabiAgent.Plugin.ManifestStore
import WazabiAgent.Plugin.Supervisor

/-!
# Script content in events of Windows

Two of the providers that the agent subscribes to hand over whole scripts: PowerShell, with the
text of a script block, and the scan interface AMSI, with the content to be scanned. Either
handler cuts the text at 16384 bytes. The text is what a script author wrote, with characters of up
to four bytes each at any place, and a cut within a character panics; the release build aborts on
a panic, so the agent is gone.

`short_id` of the supervisor makes the same cut at byte 8 of a `plugin_id`.

The parser of the events is not part of the repository. A record is what it finds there: a property
that is missing, or of another type, has no value.

## Main definitions

* `Powershell.handle`, `Amsi.handle` — the handlers, without a value where they panic
* `Survives` — the handler returns, and an event it returns has its text truncated as announced

## Main results

* `truncation_iff` — for which texts
-/

namespace WazabiAgent

namespace Etw

open Plugin (shortId ManifestStore loadDir)
open Utf8 (Fits truncate)

/-! ### Records and events -/

/-- A record as the callback of a provider gets it. -/
structure EventRecord where
  eventId : ℕ
  processId : ℕ
  /-- The properties that `try_parse` reads as text. -/
  text : String → Option String
  /-- Those that it reads as `u32`. -/
  number : String → Option ℕ

/-- An event of a provider, before its envelope. -/
structure EtwEvent where
  eventType : String
  kind : String
  eventVersion : ℕ
  pid : Option ℕ
  processName : Option String
  payload : Json

/-- A number of the payload. -/
def numeral (n : ℕ) : Json := .number (toString n)

namespace Powershell

/-- `MAX_SCRIPT_BYTES`. -/
def maxScriptBytes : ℕ := 16384

/-- `powershell::handle`. The outer `none` is a panic. -/
def handle (record : EventRecord) : Option (Option EtwEvent) :=
  let script := (record.text "ScriptBlockText").getD ""
  if record.eventId ≠ 4104 ∨ script = "" then some none
  else do
    let (script, truncated) ← truncate maxScriptBytes script
    let scriptBlockId := (record.text "ScriptBlockId").getD ""
    let path := (record.text "Path").getD ""
    return some {
      eventType := "powershell_script"
      kind := "PowerShellScript"
      eventVersion := 1
      pid := some record.processId
      processName := none
      payload := .object [("pid", numeral record.processId),
        ("script_block_id", .string scriptBlockId), ("script_block", .string script),
        ("script_truncated", .bool truncated), ("script_path", .string path)] }

end Powershell

namespace Amsi

/-- `MAX_CONTENT_BYTES`. -/
def maxContentBytes : ℕ := 16384

/-- `amsi::handle`. The outer `none` is a panic. -/
def handle (record : EventRecord) : Option (Option EtwEvent) :=
  let contentName := (record.text "ContentName").getD ""
  let content := (record.text "Content").getD ""
  let appName := (record.text "AppName").getD ""
  let result := (record.number "ScanResult").getD 0
  if record.eventId ≠ 1101 ∨ content = "" ∧ contentName = "" then some none
  else do
    let (content, truncated) ← truncate maxContentBytes content
    return some {
      eventType := "amsi_scan"
      kind := "AmsiContent"
      eventVersion := 1
      pid := some record.processId
      processName := none
      payload := .object [("pid", numeral record.processId),
        ("content_name", .string contentName), ("app_name", .string appName),
        ("content", .string content), ("content_truncated", .bool truncated),
        ("scan_result", numeral result),
        ("is_malicious", .bool (32768 ≤ result || 1 ≤ result && result < 32767))] }

end Amsi

/-! ### Truncation -/

/-- The payload has the text under `content`, as far as the limit goes, and says under `flag`
whether that is all of it. -/
def Truncates (limit : ℕ) (text content flag : String) (payload : Json) : Prop :=
  ∃ cut : String, payload.get content = some (.string cut) ∧ cut.toList <+: text.toList ∧
    cut.utf8ByteSize ≤ limit ∧
    payload.get flag = some (.bool (decide (limit < text.utf8ByteSize)))

/-- The handler does not panic, and an event that it returns meets `P`. -/
def Survives (outcome : Option (Option EtwEvent)) (P : Json → Prop) : Prop :=
  ∃ result, outcome = some result ∧ ∀ event ∈ result, P event.payload

/-- Where an event is made of the text, it is made for the texts that fit. -/
theorem survives_iff_fits {limit : ℕ} {text : String} {P : Json → Prop}
    {event : String × Bool → EtwEvent}
    (hP : ∀ cut, truncate limit text = some cut → P (event cut).payload) :
    Survives ((truncate limit text).bind fun cut => some (some (event cut))) P ↔
      Fits limit text := by
  rw [← Utf8.isSome_truncate_iff, Option.isSome_iff_exists]
  constructor
  · rintro ⟨result, hresult, -⟩
    obtain ⟨cut, hcut, -⟩ := Option.bind_eq_some_iff.mp hresult
    exact ⟨cut, hcut⟩
  · rintro ⟨cut, hcut⟩
    refine ⟨some (event cut), by rw [hcut, Option.bind_some], fun e he => ?_⟩
    obtain rfl := Option.some.inj he
    exact hP cut hcut

theorem survives_none (P : Json → Prop) : Survives (some none) P :=
  ⟨none, rfl, fun _ he => by cases he⟩

theorem fits_empty (limit : ℕ) : Fits limit "" := .inl (Nat.zero_le limit)

/-- A script block, for the texts that fit. -/
theorem Powershell.survives_iff {record : EventRecord} (hid : record.eventId = 4104) :
    Survives (handle record) (Truncates maxScriptBytes ((record.text "ScriptBlockText").getD "")
        "script_block" "script_truncated") ↔
      Fits maxScriptBytes ((record.text "ScriptBlockText").getD "") := by
  rw [handle]
  dsimp only
  by_cases hempty : (record.text "ScriptBlockText").getD "" = ""
  · rw [if_pos (.inr hempty), hempty]
    exact iff_of_true (survives_none _) (fits_empty _)
  · rw [if_neg (by simp [hid, hempty])]
    refine survives_iff_fits fun cut hcut => ?_
    obtain ⟨hpre, hsize, hflag⟩ := Utf8.truncate_eq_some hcut
    exact ⟨cut.1, rfl, hpre, hsize, by rw [← hflag]; rfl⟩

/-- The content of a scan, for the texts that fit. -/
theorem Amsi.survives_iff {record : EventRecord} (hid : record.eventId = 1101) :
    Survives (handle record) (Truncates maxContentBytes ((record.text "Content").getD "")
        "content" "content_truncated") ↔
      Fits maxContentBytes ((record.text "Content").getD "") := by
  rw [handle]
  dsimp only
  by_cases hempty : (record.text "Content").getD "" = "" ∧ (record.text "ContentName").getD "" = ""
  · rw [if_pos (.inr hempty), hempty.1]
    exact iff_of_true (survives_none _) (fits_empty _)
  · rw [if_neg (by simpa [hid] using hempty)]
    refine survives_iff_fits fun cut hcut => ?_
    obtain ⟨hpre, hsize, hflag⟩ := Utf8.truncate_eq_some hcut
    exact ⟨cut.1, rfl, hpre, hsize, by rw [← hflag]; rfl⟩

theorem isSome_shortId_iff (id : String) : (shortId id).isSome = true ↔ Fits 8 id := by
  rw [shortId, Fits]
  split_ifs with h
  · rw [Utf8.isSome_sliceTo_iff]
    exact ⟨.inr, fun hfits => hfits.resolve_left (by omega)⟩
  · exact iff_of_true rfl (.inl (by omega))

/-- **When truncation is safe.** A handler returns, with a text truncated as it says, exactly if
the text has at most 16384 bytes or a character begins at byte 16384; and `short_id` returns
exactly if the id has at most 8 bytes or a character begins at byte 8. -/
theorem truncation_iff (script scan : EventRecord) (id : String) :
    (script.eventId = 4104 →
      (Survives (Powershell.handle script)
          (Truncates 16384 ((script.text "ScriptBlockText").getD "") "script_block"
            "script_truncated") ↔
        Fits 16384 ((script.text "ScriptBlockText").getD ""))) ∧
    (scan.eventId = 1101 →
      (Survives (Amsi.handle scan)
          (Truncates 16384 ((scan.text "Content").getD "") "content" "content_truncated") ↔
        Fits 16384 ((scan.text "Content").getD ""))) ∧
    ((shortId id).isSome = true ↔ Fits 8 id) :=
  ⟨fun hid => Powershell.survives_iff hid, fun hid => Amsi.survives_iff hid,
    isSome_shortId_iff id⟩

/-! ### A text that does not fit -/

/-- A text in which the byte after the first `n + 1` is within a character. -/
def accented (n : ℕ) : String := String.ofList (List.replicate n 'a' ++ ['é'])

theorem truncate_accented (n : ℕ) : truncate (n + 1) (accented n) = none := by
  have hlen := Utf8.utf8Len_replicate (c := 'a') rfl n
  have hsize : n + 1 < (accented n).utf8ByteSize := by
    rw [accented, String.utf8ByteSize_ofList, String.utf8Len_append, hlen]
    exact Nat.add_lt_add_left (by decide) n
  have hcut := Utf8.takeBytes_append (List.replicate n 'a') ['é'] 1
  rw [hlen] at hcut
  rw [truncate, if_pos hsize, Utf8.sliceTo, accented, String.toList_ofList, hcut]
  rfl

/-- An event with the text as its only property. -/
def recordOf (eventId : ℕ) (property text : String) : EventRecord where
  eventId := eventId
  processId := 4711
  text name := if name = property then some text else none
  number _ := none

/-- A plugin whose id has its eighth byte within a character. -/
def accentedManifest : Json :=
  .object [("plugin_id", .string "pluginsé"), ("name", .string "Acme Telemetry"),
    ("vendor", .string "Acme Corp"), ("expected_path", .string "C:\\Acme\\p.exe"),
    ("expected_signer", .string "Acme Corp"), ("auto_launch", .bool true)]

/-- **Either handler aborts the agent on this text**, and the supervisor does at an id that the
manifest store takes. -/
theorem truncation_aborts :
    Powershell.handle (recordOf 4104 "ScriptBlockText" (accented 16383)) = none ∧
      Amsi.handle (recordOf 1101 "Content" (accented 16383)) = none ∧
      (loadDir (.entries
        [some ⟨.ofString "pluginsé.json", .bytes (some accentedManifest)⟩])).toOption.map
          (fun store => store.manifests.map fun m => (m.1.autoLaunch, shortId m.1.pluginId))
        = some [(true, none)] := by
  have hrun : truncate 16384 (accented 16383) = none := truncate_accented 16383
  have hne : accented 16383 ≠ "" := by
    intro h
    rw [h] at hrun
    cases hrun
  refine ⟨?_, ?_, by decide +kernel⟩
  · simp [Powershell.handle, Powershell.maxScriptBytes, recordOf, hne, hrun]
  · simp [Amsi.handle, Amsi.maxContentBytes, recordOf, hne, hrun]

end Etw

end WazabiAgent
