import PqcIot.Symbolic.Attacker
import PqcIot.System.Agreement
import PqcIot.System.Integrity
import PqcIot.System.Authentication
import PqcIot.Protocol.Hkdf
import PqcIot.Protocol.Separation
import PqcIot.Transport.Stream
import PqcIot.System.Nonces
import PqcIot.System.Failures
import PqcIot.System.Survival
import PqcIot.Devices.Freshness
import PqcIot.Devices.Concurrent
import PqcIot.Testing.Negative
import PqcIot.Testing.Capture
import PqcIot.Testing.KatVectors
import PqcIot.System.Hello
import PqcIot.Firmware.Wiping
import PqcIot.Firmware.Residue
import PqcIot.Keys.Pinning
import PqcIot.Bench.StackProbe
import PqcIot.Bench.Measure
import PqcIot.Config.PreCommit
import PqcIot.Config.Copy
import PqcIot.Firmware.Bounds
import PqcIot.System.Delivery
import PqcIot.Board.Device
import PqcIot.System.Provisioning
