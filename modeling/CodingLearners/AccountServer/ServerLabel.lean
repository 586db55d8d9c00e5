import CodingLearners.Library.Decimal

/-!
# The address of the MQTT server

`POST /ucenter` writes the configured parts of the address into a label of the page,
and `window.onload` of the chat clients takes the label apart. Only an address with
host and port is read back; without one of them the other parts shift.

## Implementation notes

The page shows the label as it was written. Numbers are what `Number` makes of
their decimal numerals, and its value on other texts is a parameter.
-/

namespace CodingLearners.AccountServer

open Js

/-! ## Writing -/

/-- The four optional members of `config.json`; the host is a name or an IPv4 address. -/
structure MqttConfig where
  mqttServerSecret : Option Bool
  mqttServerIp : Option JsString
  mqttServerPort : Option Nat
  mqttServerPath : Option JsString
  hostName : ∀ ip ∈ mqttServerIp, 58 ∉ ip ∧ 47 ∉ ip

/-- The label of `POST /ucenter`. -/
def mqttServerIp (config : MqttConfig) : JsString :=
  let mqttServerIp := units (if config.mqttServerSecret = some true then "wss:" else "ws:")
  let mqttServerIp := match config.mqttServerIp with
    | some ip => mqttServerIp ++ ip
    | none => mqttServerIp
  let mqttServerIp := match config.mqttServerPort with
    | some port => mqttServerIp ++ units ":" ++ decimal port
    | none => mqttServerIp
  match config.mqttServerPath with
  | some path => mqttServerIp ++ units "/" ++ path
  | none => mqttServerIp ++ units "//"

/-! ## Reading -/

/-- The variables of the client. -/
structure MqttServer (Double : Type) where
  mqttsrvip : JsString
  mqttsrvport : Double
  mqttsrvpath : JsString
  mqttsrvsec : Bool

/-- `s.slice(0, spind)`; the position `-1` leaves out the last character. -/
def sliceTo (s : JsString) : Option Nat → JsString
  | some spind => s.take spind
  | none => s.dropLast

/-- `s.slice(spind + 1)` -/
def sliceBehind (s : JsString) : Option Nat → JsString
  | some spind => s.drop (spind + 1)
  | none => s

variable (numbers : Numbers)

/-- What the client starts with. -/
def clientDefaults : MqttServer numbers.Double where
  mqttsrvip := units "171.221.141.157"
  mqttsrvport := numbers.ofText (decimal 1883)
  mqttsrvpath := units "/"
  mqttsrvsec := false

/-- What `window.onload` makes of the label. -/
def windowOnload (client : MqttServer numbers.Double) (sip : JsString) :
    MqttServer numbers.Double :=
  if sip = [] then client
  else
    match indexOf (units ":") sip with
    | none => { client with mqttsrvip := sip }
    | some spind =>
        let mqttsrvsec := if sip.take spind = units "wss" then true else client.mqttsrvsec
        let sip := sip.drop (spind + 1)
        let spind := indexOf (units ":") sip
        let mqttsrvip := sliceTo sip spind
        let sleftr := sliceBehind sip spind
        let spind := indexOf (units "/") sleftr
        { mqttsrvip
          mqttsrvport := numbers.ofText (sliceTo sleftr spind)
          mqttsrvpath := sliceBehind sleftr spind
          mqttsrvsec }

/-- What is configured, and the defaults of the client for the rest. -/
def configured (config : MqttConfig) : MqttServer numbers.Double where
  mqttsrvip := config.mqttServerIp.getD (clientDefaults numbers).mqttsrvip
  mqttsrvport := (config.mqttServerPort.map fun port => numbers.ofText (decimal port)).getD
    (clientDefaults numbers).mqttsrvport
  mqttsrvpath := config.mqttServerPath.getD (clientDefaults numbers).mqttsrvpath
  mqttsrvsec := config.mqttServerSecret.getD (clientDefaults numbers).mqttsrvsec

/-! ## The way through the label -/

/-- What stands behind the scheme: a path that is not configured is written `//`. -/
def address (config : MqttConfig) : JsString :=
  config.mqttServerIp.getD [] ++
    ((config.mqttServerPort.map fun port => 58 :: decimal port).getD [] ++
      47 :: config.mqttServerPath.getD (units "/"))

variable {numbers}

theorem drop_behind (s t : JsString) : (s ++ 58 :: t).drop (s.length + 1) = t := by
  rw [← List.drop_drop, List.drop_left]
  rfl

theorem mqttServerIp_eq (config : MqttConfig) :
    mqttServerIp config =
      units (if config.mqttServerSecret = some true then "wss" else "ws") ++
        58 :: address config := by
  obtain ⟨secret, ip, port, path, -⟩ := config
  have hscheme : units (if secret = some true then "wss:" else "ws:") =
      units (if secret = some true then "wss" else "ws") ++ [58] := by
    split <;> rfl
  simp only [mqttServerIp, address, hscheme]
  cases ip <;> cases port <;> cases path <;> simp [units]

/-- The scheme is read, and what stands behind it is cut twice. -/
theorem windowOnload_label (config : MqttConfig) :
    windowOnload numbers (clientDefaults numbers) (mqttServerIp config) =
      let sleftr := sliceBehind (address config) (indexOf [58] (address config))
      { mqttsrvip := sliceTo (address config) (indexOf [58] (address config))
        mqttsrvport := numbers.ofText (sliceTo sleftr (indexOf [47] sleftr))
        mqttsrvpath := sliceBehind sleftr (indexOf [47] sleftr)
        mqttsrvsec := config.mqttServerSecret.getD false } := by
  have hcolon : units ":" = [58] := rfl
  have hslash : units "/" = [47] := rfl
  have hplain : 58 ∉ units (if config.mqttServerSecret = some true then "wss" else "ws") := by
    split <;> decide
  have hsecret : (if units (if config.mqttServerSecret = some true then "wss" else "ws") =
      units "wss" then true else (clientDefaults numbers).mqttsrvsec) =
        config.mqttServerSecret.getD false := by
    rcases config.mqttServerSecret with _ | _ | _ <;> rfl
  rw [windowOnload, mqttServerIp_eq, if_neg (by simp), hcolon, hslash,
    indexOf_append_cons hplain]
  simp only [List.take_left, hsecret, drop_behind]

theorem slash_notMem_decimal (port : Nat) : 47 ∉ decimal port := by
  intro hmem
  have hlow : 48 ≤ (47 : UInt16).toNat := (mem_decimal hmem).1
  exact absurd hlow (by decide)

/-- A host and a port stand where they are looked for. -/
theorem read_back_of_port {config : MqttConfig} {ip : JsString} {port : Nat}
    (hip : config.mqttServerIp = some ip) (hport : config.mqttServerPort = some port) :
    windowOnload numbers (clientDefaults numbers) (mqttServerIp config) =
      configured numbers config := by
  have haddress : address config =
      ip ++ 58 :: (decimal port ++ 47 :: config.mqttServerPath.getD (units "/")) := by
    simp [address, hip, hport]
  have hhost := (config.hostName ip hip).1
  rw [windowOnload_label, haddress, indexOf_append_cons hhost]
  have hbehind : sliceBehind
      (ip ++ 58 :: (decimal port ++ 47 :: config.mqttServerPath.getD (units "/")))
        (some ip.length) = decimal port ++ 47 :: config.mqttServerPath.getD (units "/") := by
    simp [sliceBehind]
  simp only [hbehind, indexOf_append_cons (slash_notMem_decimal port)]
  simp [sliceTo, sliceBehind, configured, clientDefaults, hip, hport]

/-- The mark behind the host is the last character only of an empty path. -/
theorem dropLast_append_cons_iff {s t : JsString} {u : UInt16} :
    (s ++ u :: t).dropLast = s ↔ t = [] := by
  rw [List.dropLast_append_of_ne_nil (List.cons_ne_nil u t)]
  cases t with
  | nil => simp
  | cons v t => simp

/-- Without a port the last character of the address is cut off instead. -/
theorem read_back_iff_of_no_port {config : MqttConfig} {ip : JsString}
    (hip : config.mqttServerIp = some ip) (hport : config.mqttServerPort = none) :
    windowOnload numbers (clientDefaults numbers) (mqttServerIp config) =
        configured numbers config ↔
      config.mqttServerPath = some [] ∧ numbers.ofText ip = numbers.ofText (decimal 1883) := by
  have haddress : address config = ip ++ 47 :: config.mqttServerPath.getD (units "/") := by
    simp [address, hip, hport]
  obtain ⟨hcolon, hslash⟩ := config.hostName ip hip
  rw [windowOnload_label, haddress]
  by_cases hpath : 58 ∈ config.mqttServerPath.getD (units "/")
  · obtain ⟨before, behind, hfirst, hbefore⟩ := List.eq_append_cons_of_mem hpath
    have hmem : 58 ∉ ip ++ 47 :: before := by simp [hcolon, hbefore]
    have hsplit : ip ++ 47 :: config.mqttServerPath.getD (units "/") =
        (ip ++ 47 :: before) ++ 58 :: behind := by simp [hfirst]
    rw [hsplit, indexOf_append_cons hmem]
    apply iff_of_false
    · intro heq
      have hread : (ip ++ 47 :: before ++ 58 :: behind).take (ip ++ 47 :: before).length = ip := by
        simpa [configured, hip, sliceTo] using congrArg MqttServer.mqttsrvip heq
      rw [List.take_left] at hread
      simpa using congrArg List.length hread
    · rintro ⟨hempty, -⟩
      simp [hempty] at hpath
  · have hmem : 58 ∉ ip ++ 47 :: config.mqttServerPath.getD (units "/") := by
      simp [hcolon, hpath]
    rw [indexOf_of_notMem hmem]
    simp only [sliceBehind, indexOf_append_cons hslash]
    simp only [sliceTo, configured, clientDefaults, hip, hport, MqttServer.mk.injEq,
      Option.getD_some, Option.map_none, Option.getD_none, dropLast_append_cons_iff,
      List.take_left, ← List.drop_drop, List.drop_left, List.drop_succ_cons, List.drop_zero,
      and_true]
    apply and_congr_left'
    cases config.mqttServerPath with
    | none => simp [units]
    | some path => simp

/-- Without a host the address starts with the mark behind it. -/
theorem not_read_back_of_no_host {config : MqttConfig} (hip : config.mqttServerIp = none) :
    windowOnload numbers (clientDefaults numbers) (mqttServerIp config) ≠
      configured numbers config := by
  intro heq
  have hread : sliceTo (address config) (indexOf [58] (address config)) =
      units "171.221.141.157" := by
    rw [windowOnload_label] at heq
    simpa [configured, clientDefaults, hip] using congrArg MqttServer.mqttsrvip heq
  have hprefix : (sliceTo (address config) (indexOf [58] (address config))) <+:
      address config := by
    cases indexOf [58] (address config) with
    | none => exact List.dropLast_prefix _
    | some spind => exact List.take_prefix spind _
  rw [hread] at hprefix
  cases hport : config.mqttServerPort with
  | none => simp [address, hip, hport, units] at hprefix
  | some port => simp [address, hip, hport, units] at hprefix

/-- The label is read back exactly if both host and port are configured; or, by
accident, a host that is the default port as a number, no port and an empty path. -/
theorem label_read_back_iff (numbers : Numbers) (config : MqttConfig) :
    windowOnload numbers (clientDefaults numbers) (mqttServerIp config) =
        configured numbers config ↔
      (∃ ip port, config.mqttServerIp = some ip ∧ config.mqttServerPort = some port) ∨
        ∃ ip, config.mqttServerIp = some ip ∧ config.mqttServerPort = none ∧
          config.mqttServerPath = some [] ∧ numbers.ofText ip = numbers.ofText (decimal 1883) := by
  cases hip : config.mqttServerIp with
  | none => exact iff_of_false (not_read_back_of_no_host hip) (by simp)
  | some ip =>
      cases hport : config.mqttServerPort with
      | none => simpa using read_back_iff_of_no_port hip hport
      | some port => exact iff_of_true (read_back_of_port hip hport) (by simp)

def portless : MqttConfig where
  mqttServerSecret := some true
  mqttServerIp := some (units "localhost")
  mqttServerPort := none
  mqttServerPath := some (units "mqtt")
  hostName := by simp [units]

theorem portless_misread :
    mqttServerIp portless = units "wss:localhost/mqtt" ∧
      (windowOnload decimalNumbers (clientDefaults decimalNumbers)
        (mqttServerIp portless)).mqttsrvip = units "localhost/mqt" ∧
      (configured decimalNumbers portless).mqttsrvip = units "localhost" ∧
      (windowOnload decimalNumbers (clientDefaults decimalNumbers)
        (mqttServerIp portless)).mqttsrvport = decimalNumbers.nan ∧
      (configured decimalNumbers portless).mqttsrvport = decimalNumbers.ofText (units "1883") := by
  refine ⟨rfl, rfl, rfl, rfl, rfl⟩

end CodingLearners.AccountServer
