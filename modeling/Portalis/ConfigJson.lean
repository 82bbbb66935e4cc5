import Portalis.Config
import Portalis.Json

/-!
# Configurations as JSON

What `Serialize` and `Deserialize` derive for the types of the configuration and of the plan: the names and
the order of the fields, the defaults, lower-case variants, `ListenAddress` with its variant outside and
`SnatMode` with `mode` beside `address`.  Unknown members are ignored, a known one may be there once, and a
record may also be an array of its fields.  How `IpAddr` and `IpNet` are written is a parameter.

* `ofJson_toJson` of each type: values round-trip.
* `Fills`: a JSON value with one default more written out.  `fills_ofJson`: it is read alike.
* `config_text_round_trip`: both, on texts.
-/

namespace Portalis

open Json

/-! ### Numbers, identifiers and variants -/

section

def u16ToJson (n : UInt16) : Json := Json.ofNat n.toNat

def u16OfJson (v : Json) : Option UInt16 := (asNat (2 ^ 16) v).map UInt16.ofNat

def u32ToJson (n : UInt32) : Json := Json.ofNat n.toNat

def u32OfJson (v : Json) : Option UInt32 := (asNat (2 ^ 32) v).map UInt32.ofNat

theorem u16OfJson_toJson (n : UInt16) : u16OfJson (u16ToJson n) = some n := by
  rw [u16OfJson, u16ToJson, asNat_ofNat n.toNat_lt, Option.map_some, UInt16.ofNat_toNat]

theorem u32OfJson_toJson (n : UInt32) : u32OfJson (u32ToJson n) = some n := by
  rw [u32OfJson, u32ToJson, asNat_ofNat n.toNat_lt, Option.map_some, UInt32.ofNat_toNat]

/-- The hyphenated form, and all that `Uuid::parse_str` takes. -/
def uuidCodec : TextCodec Uuid where
  print := Uuid.toString
  parse := fun s => Uuid.parse s.toList
  parse_print := by
    intro u
    rw [Uuid.toString, String.toList_ofList]
    exact u.parse_chars

def AddressFamily.toJson : AddressFamily → Json
  | auto => .string "auto"
  | ipv4 => .string "ipv4"
  | ipv6 => .string "ipv6"

def AddressFamily.ofJson (v : Json) : Option AddressFamily :=
  (asVariant v).bind fun name =>
    if name = "auto" then some auto
    else if name = "ipv4" then some ipv4
    else if name = "ipv6" then some ipv6
    else none

theorem AddressFamily.ofJson_toJson (family : AddressFamily) : ofJson family.toJson = some family := by
  cases family <;> rfl

def Protocol.toJson : Protocol → Json
  | tcp => .string "tcp"
  | udp => .string "udp"

def Protocol.ofJson (v : Json) : Option Protocol :=
  (asVariant v).bind fun name =>
    if name = "tcp" then some tcp else if name = "udp" then some udp else none

theorem Protocol.ofJson_toJson (protocol : Protocol) : ofJson protocol.toJson = some protocol := by
  cases protocol <;> rfl

end

/-! ### The records -/

def Protocols.fields : List String := ["tcp", "udp"]

def Protocols.members (self : Protocols) : List (String × Json) :=
  [("tcp", .bool self.tcp), ("udp", .bool self.udp)]

def Protocols.toJson (self : Protocols) : Json := .object self.members

def Protocols.ofMembers (members : List (String × Json)) : Option Protocols := do
  let tcp ← defaulted members "tcp" asBool false
  let udp ← defaulted members "udp" asBool false
  return ⟨tcp, udp⟩

def Protocols.ofJson (v : Json) : Option Protocols := (entries Protocols.fields v).bind (Protocols.ofMembers)

theorem Protocols.ofJson_toJson (self : Protocols) : ofJson self.toJson = some self := by
  have hnodup : (self.members.map (·.1)).Nodup := (by decide : Protocols.fields.Nodup)
  show ofMembers self.members = some self
  rw [ofMembers, defaulted_bind hnodup 0 rfl (asBool_bool self.tcp),
    defaulted_bind hnodup 1 rfl (asBool_bool self.udp)]
  rfl

def PortRange.fields : List String := ["start", "end"]

def PortRange.members (self : PortRange) : List (String × Json) :=
  [("start", u16ToJson self.start), ("end", u16ToJson self.stop)]

def PortRange.toJson (self : PortRange) : Json := .object self.members

def PortRange.ofMembers (members : List (String × Json)) : Option PortRange := do
  let start ← required members "start" u16OfJson
  let stop ← required members "end" u16OfJson
  return ⟨start, stop⟩

def PortRange.ofJson (v : Json) : Option PortRange := (entries PortRange.fields v).bind (PortRange.ofMembers)

theorem PortRange.ofJson_toJson (self : PortRange) : ofJson self.toJson = some self := by
  have hnodup : (self.members.map (·.1)).Nodup := (by decide : PortRange.fields.Nodup)
  show ofMembers self.members = some self
  rw [ofMembers, required_bind hnodup 0 rfl (u16OfJson_toJson self.start),
    required_bind hnodup 1 rfl (u16OfJson_toJson self.stop)]
  rfl

section

variable (ip : TextCodec IpAddr) (net : TextCodec IpNet)

def ListenAddress.toJson : ListenAddress → Json
  | any => .string "any"
  | address a => .object [("address", ip.toJson a)]

def ListenAddress.ofJson (v : Json) : Option ListenAddress :=
  if asVariant v = some "any" then some any
  else
    match v with
    | .object [(variant, content)] =>
      if variant = "address" then (ip.ofJson content).map address else none
    | _ => none

theorem ListenAddress.ofJson_toJson (self : ListenAddress) : ofJson ip (self.toJson ip) = some self := by
  cases self with
  | any => rfl
  | address a =>
    have hvariant : asVariant (.object [("address", ip.toJson a)]) ≠ some "any" := by
      intro h
      cases h
    rw [toJson, ofJson, if_neg hvariant, if_pos rfl]
    rw [ip.ofJson_toJson, Option.map_some]

/-- A variant without an address, where none or `null` is given. -/
def SnatMode.bare (mode : SnatMode) : Option Json → Option SnatMode
  | Option.none => some mode
  | some .null => some mode
  | some _ => Option.none

def SnatMode.ofTagged (mode : Json) (content : Option Json) : Option SnatMode :=
  (asVariant mode).bind fun name =>
    if name = "none" then SnatMode.none.bare content
    else if name = "masquerade" then SnatMode.masquerade.bare content
    else if name = "fixed" then (content.bind ip.ofJson).map fixed
    else Option.none

def SnatMode.toJson : SnatMode → Json
  | none => .object [("mode", .string "none")]
  | masquerade => .object [("mode", .string "masquerade")]
  | fixed a => .object [("mode", .string "fixed"), ("address", ip.toJson a)]

def SnatMode.ofJson : Json → Option SnatMode
  | .object members =>
    (required members "mode" some).bind fun mode =>
      (find members "address").bind fun content => SnatMode.ofTagged ip mode content
  | .array [mode, content] => SnatMode.ofTagged ip mode (some content)
  | _ => Option.none

theorem SnatMode.ofJson_toJson (self : SnatMode) : ofJson ip (self.toJson ip) = some self := by
  cases self with
  | none => rfl
  | masquerade => rfl
  | fixed a =>
    show (ip.ofJson (ip.toJson a)).map fixed = some (fixed a)
    rw [ip.ofJson_toJson, Option.map_some]

/-! ### Rules and configurations -/

def ForwardRule.fields : List String :=
  ["id", "name", "comment", "enabled", "order", "allow_ssh_conflict", "family", "listen_address",
    "listen_interface", "source_cidrs", "protocols", "listen_port", "target_ip", "target_port", "snat"]

def ForwardRule.members (self : ForwardRule) : List (String × Json) :=
  [("id", uuidCodec.toJson self.id), ("name", .string self.name), ("comment", .string self.comment),
    ("enabled", .bool self.enabled), ("order", u32ToJson self.order),
    ("allow_ssh_conflict", .bool self.allowSshConflict), ("family", self.family.toJson),
    ("listen_address", self.listenAddress.toJson ip),
    ("listen_interface", ofOption .string self.listenInterface),
    ("source_cidrs", .array (self.sourceCidrs.map net.toJson)), ("protocols", self.protocols.toJson),
    ("listen_port", self.listenPort.toJson), ("target_ip", ip.toJson self.targetIp),
    ("target_port", self.targetPort.toJson), ("snat", self.snat.toJson ip)]

def ForwardRule.toJson (self : ForwardRule) : Json := .object (self.members ip net)

def ForwardRule.ofMembers (members : List (String × Json)) : Option ForwardRule := do
  let id ← required members "id" uuidCodec.ofJson
  let name ← required members "name" asString
  let comment ← defaulted members "comment" asString ""
  let enabled ← defaulted members "enabled" asBool true
  let order ← defaulted members "order" u32OfJson 0
  let allowSshConflict ← defaulted members "allow_ssh_conflict" asBool false
  let family ← required members "family" AddressFamily.ofJson
  let listenAddress ← defaulted members "listen_address" (ListenAddress.ofJson ip) .any
  let listenInterface ← defaulted members "listen_interface" (asOption asString) none
  let sourceCidrs ← defaulted members "source_cidrs" (asArray net.ofJson) []
  let protocols ← required members "protocols" Protocols.ofJson
  let listenPort ← required members "listen_port" PortRange.ofJson
  let targetIp ← required members "target_ip" ip.ofJson
  let targetPort ← required members "target_port" PortRange.ofJson
  let snat ← defaulted members "snat" (SnatMode.ofJson ip) .none
  return ⟨id, name, comment, enabled, order, allowSshConflict, family, listenAddress, listenInterface,
    sourceCidrs, protocols, listenPort, targetIp, targetPort, snat⟩

def ForwardRule.ofJson (v : Json) : Option ForwardRule := (entries ForwardRule.fields v).bind (ForwardRule.ofMembers ip net)

theorem asOption_string (o : Option String) : asOption asString (ofOption .string o) = some o :=
  asOption_ofOption asString_string (fun _ hnull => by cases hnull) o

theorem ForwardRule.ofJson_toJson (self : ForwardRule) :
    ofJson ip net (self.toJson ip net) = some self := by
  have hnodup : ((self.members ip net).map (·.1)).Nodup := (by decide : ForwardRule.fields.Nodup)
  rw [ofJson, toJson, entries_object, Option.bind_some]
  rw [ofMembers, required_bind hnodup 0 rfl (uuidCodec.ofJson_toJson self.id),
    required_bind hnodup 1 rfl (asString_string self.name),
    defaulted_bind hnodup 2 rfl (asString_string self.comment),
    defaulted_bind hnodup 3 rfl (asBool_bool self.enabled),
    defaulted_bind hnodup 4 rfl (u32OfJson_toJson self.order),
    defaulted_bind hnodup 5 rfl (asBool_bool self.allowSshConflict),
    required_bind hnodup 6 rfl self.family.ofJson_toJson,
    defaulted_bind hnodup 7 rfl (self.listenAddress.ofJson_toJson ip),
    defaulted_bind hnodup 8 rfl (asOption_string self.listenInterface),
    defaulted_bind hnodup 9 rfl (asArray_map net.ofJson_toJson self.sourceCidrs),
    required_bind hnodup 10 rfl self.protocols.ofJson_toJson,
    required_bind hnodup 11 rfl self.listenPort.ofJson_toJson,
    required_bind hnodup 12 rfl (ip.ofJson_toJson self.targetIp),
    required_bind hnodup 13 rfl self.targetPort.ofJson_toJson,
    defaulted_bind hnodup 14 rfl (self.snat.ofJson_toJson ip)]
  rfl

def Config.fields : List String := ["schema_version", "rules"]

def Config.members (self : Config) : List (String × Json) :=
  [("schema_version", u32ToJson self.schemaVersion),
    ("rules", .array (self.rules.map (ForwardRule.toJson ip net)))]

def Config.toJson (self : Config) : Json := .object (self.members ip net)

def Config.ofMembers (members : List (String × Json)) : Option Config := do
  let version ← defaulted members "schema_version" u32OfJson Portalis.schemaVersion
  let rules ← defaulted members "rules" (asArray (ForwardRule.ofJson ip net)) []
  return ⟨version, rules⟩

def Config.ofJson (v : Json) : Option Config := (entries Config.fields v).bind (Config.ofMembers ip net)

theorem Config.ofJson_toJson (self : Config) : ofJson ip net (self.toJson ip net) = some self := by
  have hnodup : ((self.members ip net).map (·.1)).Nodup := (by decide : Config.fields.Nodup)
  show ofMembers ip net (self.members ip net) = some self
  rw [ofMembers, defaulted_bind hnodup 0 rfl (u32OfJson_toJson self.schemaVersion),
    defaulted_bind hnodup 1 rfl (asArray_map (ForwardRule.ofJson_toJson ip net) self.rules)]
  rfl

def RulePlan.fields : List String :=
  ["rule_id", "order", "family", "protocol", "listen_address", "listen_interface", "source_cidrs",
    "listen_port", "target_ip", "target_port", "snat", "comment"]

def RulePlan.members (self : RulePlan) : List (String × Json) :=
  [("rule_id", uuidCodec.toJson self.ruleId), ("order", u32ToJson self.order),
    ("family", self.family.toJson), ("protocol", self.protocol.toJson),
    ("listen_address", self.listenAddress.toJson ip),
    ("listen_interface", ofOption .string self.listenInterface),
    ("source_cidrs", .array (self.sourceCidrs.map net.toJson)), ("listen_port", self.listenPort.toJson),
    ("target_ip", ip.toJson self.targetIp), ("target_port", self.targetPort.toJson),
    ("snat", self.snat.toJson ip), ("comment", .string self.comment)]

def RulePlan.toJson (self : RulePlan) : Json := .object (self.members ip net)

/-- An optional field that is missing is none. -/
def RulePlan.ofMembers (members : List (String × Json)) : Option RulePlan := do
  let ruleId ← required members "rule_id" uuidCodec.ofJson
  let order ← required members "order" u32OfJson
  let family ← required members "family" AddressFamily.ofJson
  let protocol ← required members "protocol" Protocol.ofJson
  let listenAddress ← required members "listen_address" (ListenAddress.ofJson ip)
  let listenInterface ← defaulted members "listen_interface" (asOption asString) none
  let sourceCidrs ← required members "source_cidrs" (asArray net.ofJson)
  let listenPort ← required members "listen_port" PortRange.ofJson
  let targetIp ← required members "target_ip" ip.ofJson
  let targetPort ← required members "target_port" PortRange.ofJson
  let snat ← required members "snat" (SnatMode.ofJson ip)
  let comment ← required members "comment" asString
  return ⟨ruleId, order, family, protocol, listenAddress, listenInterface, sourceCidrs, listenPort,
    targetIp, targetPort, snat, comment⟩

def RulePlan.ofJson (v : Json) : Option RulePlan :=
  (entries RulePlan.fields v).bind (RulePlan.ofMembers ip net)

theorem RulePlan.ofJson_toJson (self : RulePlan) : ofJson ip net (self.toJson ip net) = some self := by
  have hnodup : ((self.members ip net).map (·.1)).Nodup := (by decide : RulePlan.fields.Nodup)
  rw [ofJson, toJson, entries_object, Option.bind_some]
  rw [ofMembers, required_bind hnodup 0 rfl (uuidCodec.ofJson_toJson self.ruleId),
    required_bind hnodup 1 rfl (u32OfJson_toJson self.order),
    required_bind hnodup 2 rfl self.family.ofJson_toJson,
    required_bind hnodup 3 rfl self.protocol.ofJson_toJson,
    required_bind hnodup 4 rfl (self.listenAddress.ofJson_toJson ip),
    defaulted_bind hnodup 5 rfl (asOption_string self.listenInterface),
    required_bind hnodup 6 rfl (asArray_map net.ofJson_toJson self.sourceCidrs),
    required_bind hnodup 7 rfl self.listenPort.ofJson_toJson,
    required_bind hnodup 8 rfl (ip.ofJson_toJson self.targetIp),
    required_bind hnodup 9 rfl self.targetPort.ofJson_toJson,
    required_bind hnodup 10 rfl (self.snat.ofJson_toJson ip),
    required_bind hnodup 11 rfl (asString_string self.comment)]
  rfl

/-! ### Defaults that are left out -/

/-- The records with fields that have defaults. -/
inductive Shape
  | config
  | rule
  | protocols

/-- Those fields, with their defaults written out. -/
def Shape.defaults : Shape → List (String × Json)
  | config => [("schema_version", u32ToJson schemaVersion), ("rules", .array [])]
  | rule =>
    [("comment", .string ""), ("enabled", .bool true), ("order", u32ToJson 0),
      ("allow_ssh_conflict", .bool false), ("listen_address", ListenAddress.any.toJson ip),
      ("listen_interface", .null), ("source_cidrs", .array []), ("snat", SnatMode.none.toJson ip)]
  | protocols => [("tcp", .bool false), ("udp", .bool false)]

/-- Their names. -/
def Shape.defaultNames : Shape → List String
  | config => ["schema_version", "rules"]
  | rule =>
    ["comment", "enabled", "order", "allow_ssh_conflict", "listen_address", "listen_interface",
      "source_cidrs", "snat"]
  | protocols => ["tcp", "udp"]

theorem Shape.map_defaults (shape : Shape) :
    (shape.defaults ip).map (·.1) = shape.defaultNames := by
  cases shape <;> rfl

theorem Shape.nodup_defaults (shape : Shape) : ((shape.defaults ip).map (·.1)).Nodup := by
  rw [shape.map_defaults]
  cases shape <;> decide

/-- The second value is the first one with one default more written out, in a configuration, in one of its
rules or in the protocols of one. -/
inductive Fills : Shape → Json → Json → Prop
  | field {shape : Shape} {before after : List (String × Json)} {name : String} {v : Json}
      (habsent : name ∉ (before ++ after).map (·.1)) (hdefault : (name, v) ∈ shape.defaults ip) :
      Fills shape (.object (before ++ after)) (.object (before ++ (name, v) :: after))
  | rule {before after : List (String × Json)} {rules more : List Json} {v w : Json}
      (h : Fills .rule v w) :
      Fills .config (.object (before ++ ("rules", .array (rules ++ v :: more)) :: after))
        (.object (before ++ ("rules", .array (rules ++ w :: more)) :: after))
  | protocols {before after : List (String × Json)} {v w : Json} (h : Fills .protocols v w) :
      Fills .rule (.object (before ++ ("protocols", v) :: after))
        (.object (before ++ ("protocols", w) :: after))

variable {ip}

/-- The default of a field is the value written out for it. -/
theorem default_eq {shape : Shape} {name : String} {v : Json} (hmem : (name, v) ∈ shape.defaults ip)
    {key : String} {w : Json} (i : ℕ) (hi : (shape.defaults ip)[i]? = some (key, w))
    (hname : name = key) : v = w := by
  subst hname
  have hnodup := shape.nodup_defaults ip
  obtain ⟨j, hj⟩ := List.getElem?_of_mem hmem
  have hboth := (find_at hnodup hj).symm.trans (find_at hnodup hi)
  exact Option.some.inj (Option.some.inj hboth)

/-- A field whose default is what is written out for it is read alike. -/
theorem defaulted_fill {shape : Shape} {before after : List (String × Json)} {name : String} {v : Json}
    (habsent : name ∉ (before ++ after).map (·.1)) (hmem : (name, v) ∈ shape.defaults ip) {α : Type}
    {key : String} {w : Json} {decode : Json → Option α} {default : α} (i : ℕ)
    (hi : (shape.defaults ip)[i]? = some (key, w)) (hw : decode w = some default) :
    defaulted (before ++ (name, v) :: after) key decode default =
      defaulted (before ++ after) key decode default := by
  refine defaulted_insert habsent fun hname => ?_
  rw [default_eq hmem i hi hname]
  exact hw

/-- Fields without a default are not written out. -/
theorem required_fill {shape : Shape} {before after : List (String × Json)} {name : String} {v : Json}
    (hmem : (name, v) ∈ shape.defaults ip) {α : Type} {decode : Json → Option α} (key : String)
    (hkey : key ∉ shape.defaultNames) :
    required (before ++ (name, v) :: after) key decode = required (before ++ after) key decode := by
  refine required_insert_of_ne fun hname => ?_
  subst hname
  rw [← shape.map_defaults ip] at hkey
  exact hkey (List.mem_map_of_mem hmem)

theorem Protocols.ofJson_fills {v w : Json} (h : Fills ip .protocols v w) : ofJson v = ofJson w := by
  cases h with
  | @field _ before after name v habsent hdefault =>
    show ofMembers (before ++ after) = ofMembers (before ++ (name, v) :: after)
    rw [ofMembers, ofMembers, defaulted_fill habsent hdefault 0 rfl (asBool_bool false),
      defaulted_fill habsent hdefault 1 rfl (asBool_bool false)]

theorem ForwardRule.ofJson_fills {v w : Json} (h : Fills ip .rule v w) :
    ofJson ip net v = ofJson ip net w := by
  cases h with
  | @field _ before after name v habsent hdefault =>
    show ofMembers ip net (before ++ after) = ofMembers ip net (before ++ (name, v) :: after)
    rw [ofMembers, ofMembers, required_fill hdefault "id" (by decide),
      required_fill hdefault "name" (by decide),
      defaulted_fill habsent hdefault 0 rfl (asString_string ""),
      defaulted_fill habsent hdefault 1 rfl (asBool_bool true),
      defaulted_fill habsent hdefault 2 rfl (u32OfJson_toJson 0),
      defaulted_fill habsent hdefault 3 rfl (asBool_bool false),
      required_fill hdefault "family" (by decide),
      defaulted_fill habsent hdefault 4 rfl (ListenAddress.any.ofJson_toJson ip),
      defaulted_fill habsent hdefault 5 rfl (asOption_string none),
      defaulted_fill habsent hdefault 6 rfl (asArray_map net.ofJson_toJson []),
      required_fill hdefault "protocols" (by decide),
      required_fill hdefault "listen_port" (by decide),
      required_fill hdefault "target_ip" (by decide),
      required_fill hdefault "target_port" (by decide),
      defaulted_fill habsent hdefault 7 rfl (SnatMode.none.ofJson_toJson ip)]
  | @protocols before after v w h =>
    have hrequired : ∀ {α : Type} (key : String) (decode : Json → Option α), "protocols" ≠ key →
        required (before ++ ("protocols", v) :: after) key decode =
          required (before ++ ("protocols", w) :: after) key decode :=
      fun key decode hne => required_replace fun heq => absurd heq hne
    have hdefaulted : ∀ {α : Type} (key : String) (decode : Json → Option α) (default : α),
        "protocols" ≠ key → defaulted (before ++ ("protocols", v) :: after) key decode default =
          defaulted (before ++ ("protocols", w) :: after) key decode default :=
      fun key decode default hne => defaulted_replace fun heq => absurd heq hne
    have hread : required (before ++ ("protocols", v) :: after) "protocols" Protocols.ofJson =
        required (before ++ ("protocols", w) :: after) "protocols" Protocols.ofJson :=
      required_replace fun _ => Protocols.ofJson_fills h
    show ofMembers ip net (before ++ ("protocols", v) :: after) =
      ofMembers ip net (before ++ ("protocols", w) :: after)
    rw [ofMembers, ofMembers, hrequired "id" _ (by decide), hrequired "name" _ (by decide),
      hdefaulted "comment" _ _ (by decide), hdefaulted "enabled" _ _ (by decide),
      hdefaulted "order" _ _ (by decide), hdefaulted "allow_ssh_conflict" _ _ (by decide),
      hrequired "family" _ (by decide), hdefaulted "listen_address" _ _ (by decide),
      hdefaulted "listen_interface" _ _ (by decide), hdefaulted "source_cidrs" _ _ (by decide), hread,
      hrequired "listen_port" _ (by decide), hrequired "target_ip" _ (by decide),
      hrequired "target_port" _ (by decide), hdefaulted "snat" _ _ (by decide)]

theorem Config.ofJson_fills {v w : Json} (h : Fills ip .config v w) :
    ofJson ip net v = ofJson ip net w := by
  cases h with
  | @field _ before after name v habsent hdefault =>
    show ofMembers ip net (before ++ after) = ofMembers ip net (before ++ (name, v) :: after)
    rw [ofMembers, ofMembers,
      defaulted_fill habsent hdefault 0 rfl (u32OfJson_toJson Portalis.schemaVersion),
      defaulted_fill habsent hdefault 1 rfl (asArray_map (ForwardRule.ofJson_toJson ip net) [])]
  | @rule before after rules more v w h =>
    have hread := asArray_replace (ForwardRule.ofJson_fills net h) rules more
    show ofMembers ip net (before ++ ("rules", .array (rules ++ v :: more)) :: after) =
      ofMembers ip net (before ++ ("rules", .array (rules ++ w :: more)) :: after)
    have hversion : defaulted (before ++ ("rules", .array (rules ++ v :: more)) :: after)
        "schema_version" u32OfJson Portalis.schemaVersion =
          defaulted (before ++ ("rules", .array (rules ++ w :: more)) :: after) "schema_version"
            u32OfJson Portalis.schemaVersion :=
      defaulted_replace fun heq => absurd heq (by decide)
    have hrules : defaulted (before ++ ("rules", .array (rules ++ v :: more)) :: after) "rules"
        (asArray (ForwardRule.ofJson ip net)) [] =
          defaulted (before ++ ("rules", .array (rules ++ w :: more)) :: after) "rules"
            (asArray (ForwardRule.ofJson ip net)) [] :=
      defaulted_replace fun _ => hread
    rw [ofMembers, ofMembers, hversion, hrules]

theorem Config.ofJson_fills_all {v w : Json} (h : Relation.ReflTransGen (Fills ip .config) v w) :
    ofJson ip net v = ofJson ip net w := by
  induction h with
  | refl => rfl
  | tail _ hfill ih => exact ih.trans (ofJson_fills net hfill)

/-! ### Texts -/

variable (ip)

/-- `serde_json::to_string`. -/
def Config.toText (self : Config) : String := String.ofList (render (self.toJson ip net))

/-- `serde_json::from_str`. -/
def Config.ofText (text : String) : Option Config := (parse text.toList).bind (Config.ofJson ip net)

/-- **Configurations round-trip.**  The text of a configuration is read back as that configuration; and two
texts are read alike if the one differs from the other in defaults that are written out. -/
theorem config_text_round_trip :
    (∀ config : Config, Config.ofText ip net (config.toText ip net) = some config) ∧
      ∀ text text' v v', parse text.toList = some v → parse text'.toList = some v' →
        Relation.ReflTransGen (Fills ip .config) v v' →
          Config.ofText ip net text = Config.ofText ip net text' := by
  refine ⟨fun config => ?_, fun text text' v v' hv hv' hfills => ?_⟩
  · rw [Config.ofText, Config.toText, String.toList_ofList, parse_render]
    exact config.ofJson_toJson ip net
  · rw [Config.ofText, Config.ofText, hv, hv']
    exact Config.ofJson_fills_all net hfills

end

/-! ### Addresses with groups and octets in full -/

section

open Text

/-- Eight groups of four digits. -/
def ipv6Text (x : ℕ) : List Char :=
  hexDigits 4 (x / 16 ^ 28) ++ ':' :: (hexDigits 4 (x / 16 ^ 24) ++ ':' ::
    (hexDigits 4 (x / 16 ^ 20) ++ ':' :: (hexDigits 4 (x / 16 ^ 16) ++ ':' ::
      (hexDigits 4 (x / 16 ^ 12) ++ ':' :: (hexDigits 4 (x / 16 ^ 8) ++ ':' ::
        (hexDigits 4 (x / 16 ^ 4) ++ ':' :: hexDigits 4 x))))))

/-- Four octets with points between them. -/
def ipv4Text (bits : BitVec 32) : List Char :=
  ['.'].intercalate ((IpAddr.v4 bits).octets.map fun octet => Nat.toDigits 10 octet.toNat)

def ipText : IpAddr → List Char
  | .v4 bits => ipv4Text bits
  | .v6 bits => ipv6Text bits.toNat

def ipOfText (text : List Char) : Option IpAddr :=
  if ':' ∈ text then (parseHex 0 (text.filter (· ≠ ':'))).map fun n => .v6 (BitVec.ofNat 128 n)
  else
    ((text.splitOn '.').mapM (parseDigits 256 0)).bind fun octets =>
      IpAddr.ofOctets? (octets.map UInt8.ofNat)

theorem filter_hexDigits (n x : ℕ) : (hexDigits n x).filter (· ≠ ':') = hexDigits n x :=
  List.filter_eq_self.mpr fun _ hc => decide_eq_true (hexDigits_ne_of_mem hc).1

/-- The groups, colons dropped, are the 32 digits of the address. -/
theorem filter_ipv6Text (x : ℕ) : (ipv6Text x).filter (· ≠ ':') = hexDigits 32 x := by
  have hsplit : hexDigits 32 x = hexDigits 4 (x / 16 ^ 28) ++ (hexDigits 4 (x / 16 ^ 24) ++
      (hexDigits 4 (x / 16 ^ 20) ++ (hexDigits 4 (x / 16 ^ 16) ++ (hexDigits 4 (x / 16 ^ 12) ++
        (hexDigits 4 (x / 16 ^ 8) ++ (hexDigits 4 (x / 16 ^ 4) ++ hexDigits 4 x)))))) := by
    rw [← hexDigits_add 4 4, ← hexDigits_add 4 8, ← hexDigits_add 4 12, ← hexDigits_add 4 16,
      ← hexDigits_add 4 20, ← hexDigits_add 4 24, ← hexDigits_add 4 28]
  have hcolon : ∀ text : List Char, (':' :: text).filter (· ≠ ':') = text.filter (· ≠ ':') :=
    fun text => List.filter_cons_of_neg (by decide)
  rw [hsplit, ipv6Text]
  simp only [List.filter_append, hcolon, filter_hexDigits]

theorem parseDigits_toDigits {n limit : ℕ} (h : n < limit) :
    parseDigits limit 0 (Nat.toDigits 10 n) = some n := toNat?_ofNat h

theorem mapM_octets (octets : List UInt8) :
    (octets.map fun octet => Nat.toDigits 10 octet.toNat).mapM (parseDigits 256 0) =
      some (octets.map UInt8.toNat) := by
  induction octets with
  | nil => rfl
  | cons octet octets ih =>
    rw [List.map_cons, List.mapM_cons, parseDigits_toDigits octet.toNat_lt, ih]
    rfl

theorem mem_ipv4Text {bits : BitVec 32} {c : Char} (h : c ∈ ipv4Text bits) :
    c = '.' ∨ c.isDigit = true := by
  rcases Text.mem_intercalate h with hpoint | ⟨piece, hpiece, hc⟩
  · exact Or.inl (List.mem_singleton.mp hpoint)
  · obtain ⟨octet, -, hoctet⟩ := List.mem_map.mp hpiece
    rw [← hoctet] at hc
    exact Or.inr (isDigit_of_mem_toDigits hc)

theorem ipOfText_ipText (a : IpAddr) : ipOfText (ipText a) = some a := by
  cases a with
  | v6 bits =>
    have hcolon : ':' ∈ ipText (.v6 bits) := by
      rw [ipText, ipv6Text]
      exact List.mem_append_right _ List.mem_cons_self
    have hlt : bits.toNat < 16 ^ 32 := bits.isLt
    rw [ipOfText, if_pos hcolon, ipText, filter_ipv6Text, parseHex_hexDigits, Nat.zero_mul, Nat.zero_add,
      Nat.mod_eq_of_lt hlt, Option.map_some, BitVec.ofNat_toNat, BitVec.setWidth_eq]
  | v4 bits =>
    have hcolon : ':' ∉ ipText (.v4 bits) := by
      intro hmem
      rcases mem_ipv4Text hmem with hpoint | hdigit
      · revert hpoint
        decide
      · revert hdigit
        decide
    have hoctets : ∀ octet ∈ (IpAddr.v4 bits).octets.map fun octet => Nat.toDigits 10 octet.toNat,
        '.' ∉ octet := by
      intro octet hoctet hmem
      obtain ⟨n, -, hn⟩ := List.mem_map.mp hoctet
      rw [← hn] at hmem
      have hdigit := isDigit_of_mem_toDigits hmem
      revert hdigit
      decide
    have hround : ((IpAddr.v4 bits).octets.map UInt8.toNat).map UInt8.ofNat = (IpAddr.v4 bits).octets := by
      rw [List.map_map]
      exact List.map_id'' (fun n => UInt8.ofNat_toNat) _
    have hne : (IpAddr.v4 bits).octets.map (fun octet => Nat.toDigits 10 octet.toNat) ≠ [] := by
      intro hnil
      have hlength := congrArg List.length hnil
      rw [List.length_map, IpAddr.octets_length] at hlength
      cases hlength
    rw [ipOfText, if_neg hcolon, ipText, ipv4Text, List.splitOn_intercalate '.' hoctets hne, mapM_octets,
      Option.bind_some, hround, IpAddr.ofOctets?_octets]

def ipCodec : TextCodec IpAddr where
  print := fun a => String.ofList (ipText a)
  parse := fun s => ipOfText s.toList
  parse_print := by
    intro a
    rw [String.toList_ofList]
    exact ipOfText_ipText a

/-- The address as written and the prefix length. -/
def netText : IpNet → List Char
  | .v4 net => ipText (.v4 net.addr) ++ '/' :: Nat.toDigits 10 net.prefixLen
  | .v6 net => ipText (.v6 net.addr) ++ '/' :: Nat.toDigits 10 net.prefixLen

def netOf (prefixLen : ℕ) : IpAddr → Option IpNet
  | .v4 addr => if h : prefixLen ≤ 32 then some (.v4 ⟨addr, prefixLen, h⟩) else none
  | .v6 addr => if h : prefixLen ≤ 128 then some (.v6 ⟨addr, prefixLen, h⟩) else none

def netOfText (text : List Char) : Option IpNet :=
  (splitOnce '/' text).bind fun (addr, len) =>
    (ipOfText addr).bind fun a => (parseDigits 129 0 len).bind fun prefixLen => netOf prefixLen a

theorem slash_notMem_ipText (a : IpAddr) : '/' ∉ ipText a := by
  intro hmem
  cases a with
  | v4 bits =>
    rcases mem_ipv4Text hmem with hpoint | hdigit
    · revert hpoint
      decide
    · revert hdigit
      decide
  | v6 bits =>
    have hslash : '/' ∈ (ipv6Text bits.toNat).filter (· ≠ ':') :=
      List.mem_filter.mpr ⟨hmem, by decide⟩
    rw [filter_ipv6Text] at hslash
    exact forall_mem_hexDigits (fun c => c ≠ '/') (by decide) hslash rfl

/-- The text before the first slash is the address, and what follows is the length. -/
theorem netOfText_append (a : IpAddr) {prefixLen : ℕ} (h : prefixLen ≤ 128) :
    netOfText (ipText a ++ '/' :: Nat.toDigits 10 prefixLen) = netOf prefixLen a := by
  have hlen : parseDigits 129 0 (Nat.toDigits 10 prefixLen) = some prefixLen :=
    parseDigits_toDigits (by omega)
  simp only [netOfText, splitOnce_append (slash_notMem_ipText a), Option.bind_some,
    ipOfText_ipText, hlen]

theorem netOfText_netText (n : IpNet) : netOfText (netText n) = some n := by
  cases n with
  | v4 net =>
    obtain ⟨addr, prefixLen, hle⟩ := net
    have hle' : prefixLen ≤ 128 := by omega
    rw [netText, netOfText_append _ hle', netOf, dif_pos hle]
  | v6 net =>
    obtain ⟨addr, prefixLen, hle⟩ := net
    rw [netText, netOfText_append _ hle, netOf, dif_pos hle]

def netCodec : TextCodec IpNet where
  print := fun n => String.ofList (netText n)
  parse := fun s => netOfText s.toList
  parse_print := by
    intro n
    rw [String.toList_ofList]
    exact netOfText_netText n

end

/-- Every kind of variant, an interface, a block with host bits, and texts that are escaped. -/
def mixedRule : ForwardRule where
  id := ⟨7⟩
  name := "dns \"inner\""
  comment := "first\nsecond"
  enabled := false
  order := 3
  allowSshConflict := false
  family := .ipv4
  listenAddress := .address (.v4 0xC000020A#32)
  listenInterface := some "eth0"
  sourceCidrs := [.v4 ⟨0xCB007109#32, 24, Nat.le_of_ble_eq_true rfl⟩]
  protocols := ⟨true, true⟩
  listenPort := ⟨53, 53⟩
  targetIp := .v4 0xC0000214#32
  targetPort := ⟨5353, 5353⟩
  snat := .fixed (.v4 0xC000020B#32)

theorem config_text_round_trip_mixed :
    Config.ofText ipCodec netCodec (Config.toText ipCodec netCodec ⟨1, [mixedRule]⟩) =
        some ⟨1, [mixedRule]⟩ ∧
      Config.ofText ipCodec netCodec (String.ofList (render (.object []))) =
        Config.ofText ipCodec netCodec (String.ofList (render (.object [("rules", .array [])]))) := by
  have hfills : Fills ipCodec .config (.object []) (.object [("rules", .array [])]) :=
    @Fills.field ipCodec .config [] [] "rules" (.array []) List.not_mem_nil
      (List.mem_cons_of_mem _ List.mem_cons_self)
  have hparse : ∀ v : Json, parse (String.ofList (render v)).toList = some v := by
    intro v
    rw [String.toList_ofList]
    exact parse_render v
  exact ⟨(config_text_round_trip ipCodec netCodec).1 _,
    (config_text_round_trip ipCodec netCodec).2 _ _ _ _ (hparse _) (hparse _) (.single hfills)⟩

end Portalis
