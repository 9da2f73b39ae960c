import RocCar.FrameSound
import RocCar.DispatchSound
import RocCar.Phantom
import RocCar.Heading
import RocCar.Safety
import RocCar.Stream
import RocCar.Splice
import RocCar.PwmSound
import RocCar.MotorSound
import RocCar.GpioSound
import RocCar.BootSound
import RocCar.Corrupt
import RocCar.Payload
import RocCar.Resync
import RocCar.Search
import RocCar.FlashSound
import RocCar.WifiSound
import RocCar.ChassisSound
import RocCar.EnvFaults
import RocCar.EnvUpdate
import RocCar.WlanRun
