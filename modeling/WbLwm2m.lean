import WbLwm2m.Lib.Memory
import WbLwm2m.Lib.Writer
import WbLwm2m.Lib.Base64
import WbLwm2m.Lib.BigEndian
import WbLwm2m.Lib.Decimal
import WbLwm2m.Lib.DecimalFraction
import WbLwm2m.Lib.Json
import WbLwm2m.Lib.JsonUnique
import WbLwm2m.Lib.JsonArray
import WbLwm2m.Lib.Transition
import WbLwm2m.Lib.Observation
import WbLwm2m.Lib.Log
import WbLwm2m.Lib.Heap
import WbLwm2m.Lib.Query
import WbLwm2m.Lib.PrefixCode
import WbLwm2m.Lib.Rounding
import WbLwm2m.Lib.Hex
import WbLwm2m.Float
import WbLwm2m.Object
import WbLwm2m.Tlv
import WbLwm2m.TlvRecord
import WbLwm2m.TlvRoundTrip
import WbLwm2m.TlvInstance
import WbLwm2m.TlvFailure
import WbLwm2m.TlvPrefix
import WbLwm2m.TlvCanonical
import WbLwm2m.Containers
import WbLwm2m.Senml
import WbLwm2m.Base64
import WbLwm2m.SenmlRecord
import WbLwm2m.SenmlInstance
import WbLwm2m.SenmlString
import WbLwm2m.LinkFormat
import WbLwm2m.LinkText
import WbLwm2m.LinkRoundTrip
import WbLwm2m.Terminators
import WbLwm2m.Client
import WbLwm2m.Step
import WbLwm2m.Log
import WbLwm2m.Registration
import WbLwm2m.Updating
import WbLwm2m.Deregistration
import WbLwm2m.Handles
import WbLwm2m.HandleUse
import WbLwm2m.Stopped
import WbLwm2m.Responses
import WbLwm2m.Timers
import WbLwm2m.RegistrationRequest
import WbLwm2m.Location
import WbLwm2m.Machine
import WbLwm2m.Trace
import WbLwm2m.Failures
import WbLwm2m.Notify
import WbLwm2m.Payload
import WbLwm2m.Advertised
import WbLwm2m.Interleaving
import WbLwm2m.Confidential
import WbLwm2m.ServerObject
import WbLwm2m.DeviceObject
import WbLwm2m.StdObjects
import WbLwm2m.SenmlNumber
import WbLwm2m.SenmlOpaque
import WbLwm2m.FloatText
import WbLwm2m.SenmlFloat
import WbLwm2m.FloatAccuracy
import WbLwm2m.SenmlPack
import WbLwm2m.FloatWidth
import WbLwm2m.Footprint
import WbLwm2m.Reachability
import WbLwm2m.ObjectTable
import WbLwm2m.ObjectLifetime
import WbLwm2m.Notifications
import WbLwm2m.Requests
import WbLwm2m.FirmwareUpdate
import WbLwm2m.KeepAlive
import WbLwm2m.PskKey
