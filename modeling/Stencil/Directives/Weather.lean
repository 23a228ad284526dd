import Stencil.Directives.Operand
import Stencil.Web

/-!
# Location and weather

The location is looked up by the address of the network, the weather for that location.  The looked
up location stays in the context, so it is looked up once.
-/

namespace Stencil.Directives

open Template

/-- Where the location is looked up. -/
def locationUrl : String := "https://get.geojs.io/v1/ip/geo.json"

/-- Where the weather is looked up. -/
def forecastUrl : String := "https://api.open-meteo.com/v1/forecast"

/-- The context key of the looked up location. -/
def locationDataKey : String := "locationData"

/-- A location. -/
structure Location where
  /-- The city, or nothing. -/
  city : String
  /-- The region, or nothing. -/
  region : String
  /-- The country, or nothing. -/
  country : String
  /-- The latitude. -/
  latitude : String
  /-- The longitude. -/
  longitude : String
  deriving DecidableEq, Repr

namespace Location

/-- A text field that may be missing, but may not be anything else. -/
def optionalText? (fields : Dict Json) (key : String) : Option String :=
  match fields.get? key with
  | none => some ""
  | some value => value.text?

/-- The location a value stands for: an object with the five fields, of which the first three may be
missing, or a list of the five values. -/
def ofJson? : Json → Option Location
  | .record fields => do
    let d := Dict.ofList fields
    some ⟨← optionalText? d "city", ← optionalText? d "region", ← optionalText? d "country",
      ← (d.get? "latitude").bind Json.text?, ← (d.get? "longitude").bind Json.text?⟩
  | .list [.text city, .text region, .text country, .text latitude, .text longitude] =>
    some ⟨city, region, country, latitude, longitude⟩
  | _ => none

/-- The location in words. -/
def label (l : Location) : String :=
  ", ".intercalate ([l.city, l.region, l.country].filter (!·.isEmpty))

end Location

/-- The location and the value it came from: that of the context if it has one, and else that of the
network. -/
def locate (host : Host) (ctx : Context) : Action Failure Machine (Location × Json) := do
  let raw ← match ctx.get? locationDataKey with
    | some value => pure value
    | none => Web.fetchJson host locationUrl
  match Location.ofJson? raw with
  | some location => return (location, raw)
  | none => throw (.unavailable "geolocation response")

/-- The location. -/
def location (host : Host) : Builtin :=
  shared "location" "Approximate location (city, region, country)" ["location"] []
    fun _ ctx => do
      let (place, raw) ← locate host ctx
      return (Outcome.keyed "location" place.label).withField locationDataKey raw

/-- How far a forecast looks. -/
inductive Forecast where
  | current | week
  deriving DecidableEq, Repr

namespace Forecast

/-- The name tokens use, which is also the result key. -/
def name : Forecast → String
  | current => "currentWeather"
  | week => "weekWeather"

/-- One line for listings. -/
def description : Forecast → String
  | current => "Current weather at the approximate location, as JSON"
  | week => "Seven-day forecast at the approximate location, as JSON"

/-- What is asked for. -/
def query : Forecast → String
  | current => "current=temperature_2m,apparent_temperature,relative_humidity_2m,precipitation," ++
      "weather_code,wind_speed_10m"
  | week => "daily=weather_code,temperature_2m_max,temperature_2m_min,precipitation_sum," ++
      "precipitation_probability_max"

/-- The part of the answer that is given. -/
def part : Forecast → String
  | current => "current"
  | week => "daily"

/-- The URL of a forecast. -/
def url (f : Forecast) (l : Location) (unit : String) : String :=
  forecastUrl ++ "?latitude=" ++ l.latitude ++ "&longitude=" ++ l.longitude ++ "&" ++ f.query ++
    "&temperature_unit=" ++ unit ++ "&timezone=auto"

/-- The directive of a forecast. -/
def directive (f : Forecast) (host : Host) : Builtin :=
  shared f.name f.description [f.name] [] fun token ctx => do
    let (place, raw) ← locate host ctx
    let unit :=
      if (token.args.get? "unit").any (·.toLower == "fahrenheit") then "fahrenheit" else "celsius"
    let answer ← Web.fetchJson host (f.url place unit)
    match answer.field? f.part with
    | none => throw (.unavailable "forecast response had no data")
    | some part =>
      return ((Outcome.ofText part.compact).withField f.name part).withField locationDataKey raw

end Forecast

end Stencil.Directives
