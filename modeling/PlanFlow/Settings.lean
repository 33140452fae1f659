import PlanFlow.Log.Level
import PlanFlow.Payload
import PlanFlow.Schema.Record

/-!
Settings from environment variables. Every setting has a default; the list of tools is given as JSON, all
other settings as plain text.
-/

set_option autoImplicit false

namespace PlanFlow

structure Settings where
  logLevel : LogLevel
  defaultModel : Option Text
  synthesisNodeId : Text
  resultOutputName : Text
  defaultTools : List Text
deriving DecidableEq

namespace Settings

def standard : Settings :=
  ⟨.info, none, "orchestrator_synthesize", "result", ["fs_read_file", "fs_list_files", "fs_search"]⟩

/-- The variable of a setting. Names of variables match in any case; the last of several counts. -/
def setting? (environment : Table Text) (key : Text) : Option Text :=
  let name := ("orchestration_" : Text) ++ key
  (environment.reverse.find? fun entry => Text.lower entry.1 == name).map Prod.snd

def toolsValue? (environment : Table Text) : Outcome (Option Json) :=
  match setting? environment "default_tools" with
  | none => .ok none
  | some t =>
      match Json.readUnmarked t with
      | .ok .null => .ok none
      | .ok j => .ok (some j)
      | .error _ => .error (.unreadableSetting "default_tools")

def checkLevel (environment : Table Text) : Checked LogLevel :=
  match setting? environment "log_level" with
  | none => .valid standard.logLevel
  | some t =>
      match LogLevel.ofText? t with
      | some level => .valid level
      | none =>
          (Checked.fail (.refused (Text.concat ["Unsupported log level: ", t])) (.str t)).under
            (.key "log_level")

def checkTools : Option Json → Checked (List Text)
  | none => .valid standard.defaultTools
  | some j => (Schema.listOf Schema.anyText j).under (.key "default_tools")

def ofEnvironment (environment : Table Text) : Outcome Settings :=
  match toolsValue? environment with
  | .error failure => .error failure
  | .ok tools =>
      Outcome.ofChecked <|
        (fun level names => {
          logLevel := level
          defaultModel := setting? environment "default_model"
          synthesisNodeId :=
            (setting? environment "synthesis_node_id").getD standard.synthesisNodeId
          resultOutputName :=
            (setting? environment "result_output_name").getD standard.resultOutputName
          defaultTools := names })
        <$> checkLevel environment <*> checkTools tools

def toJson (s : Settings) : Json :=
  .obj [("log_level", .str s.logLevel.name), ("default_model", Json.ofText? s.defaultModel),
    ("synthesis_node_id", .str s.synthesisNodeId), ("result_output_name", .str s.resultOutputName),
    ("default_tools", Json.texts s.defaultTools)]

end Settings

end PlanFlow
